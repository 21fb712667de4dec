import DomainModel.Disk.Export
import DomainModel.Document.Text
import DomainModel.Document.ToModel
import DomainModel.Descriptor.OfModel
import DomainModel.Proofs.Pairing.Accounting
import DomainModel.Proofs.Pairing.Joined
import DomainModel.Proofs.Pairing.Order
import DomainModel.Proofs.Descriptors.Reading
import DomainModel.Proofs.Relationships.RoundTrip
import DomainModel.Proofs.Relationships.Counterparts
import DomainModel.Proofs.Relationships.OneWay
import DomainModel.Proofs.Disk.Models
import DomainModel.Proofs.Disk.Dates
import DomainModel.Proofs.Documents.Resolution
import DomainModel.Proofs.Documents.Rereading
import DomainModel.Proofs.Entities.RoundTrip
import DomainModel.Proofs.Options.RoundTrip
import DomainModel.Proofs.Documents.Composition
import DomainModel.Proofs.Documents.ApplicationOrder
import DomainModel.Proofs.Descriptors.Rewriting
import DomainModel.Proofs.Models.Runs
import DomainModel.Proofs.Models.Codec
import DomainModel.Proofs.Documents.Comments
import DomainModel.Proofs.Disk.Applications
import DomainModel.Proofs.Disk.Reading
import DomainModel.Proofs.Descriptors.Repetition
import DomainModel.Proofs.Models.Legibility
import DomainModel.Proofs.Options.Additions
import DomainModel.Proofs.Documents.OptionDatabases
import DomainModel.Proofs.Descriptors.Rejection
import DomainModel.Proofs.Options.Folding
import DomainModel.Proofs.Documents.Entities
import DomainModel.Proofs.Calendar.Gregorian
import DomainModel.Proofs.Calendar.Stamps
import DomainModel.Proofs.Descriptors.ChangelogDates
import DomainModel.Proofs.Models.NewApplications
import DomainModel.Proofs.Relationships.Collisions
import DomainModel.Proofs.Models.Retention
import DomainModel.Proofs.Documents.SourceFields
import DomainModel.Proofs.Text.InjectedFields
