import DomainModel.Proofs.Calendar.Stamps
import DomainModel.Proofs.Descriptors.Conversion
/-!
# The changelog dates of converted models

Conversion gives the entities of a model one second after another. As long as the years have four
digits, the dates come in the order of the entities, also as texts.
-/
namespace DomainModel

namespace Model
variable {m : Model}

theorem changelogDates_toDescriptors (h : m.WellFormed) (start : Int) :
    (m.toDescriptors start).values.map EntityDescriptor.changelogDate =
      ((List.range m.entities.size).map fun i : Nat => changelogDate start i).map some := by
  have hsize : m.entities.size = m.entities.values.length := (List.length_map _).symm
  rw [Table.values, entries_toDescriptors h, List.map_map, List.map_map, List.map_map, hsize,
    List.range_eq_range', ← List.zipIdx_map_snd, List.map_map]
  rfl

/-- The changelog dates of a converted model count the seconds from the start on. -/
theorem countsFrom_changelogDates (h : m.Reachable) {start : Int}
    (hfirst : InFourDigitYears start) (hlast : InFourDigitYears (start + m.entities.size)) :
    (m.toDescriptors start).keys = m.entities.keys ∧
    ∃ dates : List String, (m.toDescriptors start).values.map EntityDescriptor.changelogDate =
        dates.map some ∧ CountsFrom start dates :=
  ⟨keys_toDescriptors h.wellFormed start, _, changelogDates_toDescriptors h.wellFormed start,
    countsFrom_range hfirst hlast⟩

/-- Three entities without fields. -/
def fleet : Model :=
  { (∅ : Model) with
    entities := (((∅ : Table String Entity).insert "Ship" (.named "Ship")).insert "Port"
      (.named "Port")).insert "Crew" (.named "Crew") }

/-- Two seconds before the leap day of the year 2000. -/
def lateFebruary : Int := 951782398

theorem fleet_countsFrom : fleet.Reachable ∧ InFourDigitYears lateFebruary ∧
    InFourDigitYears (lateFebruary + fleet.entities.size) ∧
    (fleet.toDescriptors lateFebruary).keys = fleet.entities.keys ∧
    ∃ dates : List String, (fleet.toDescriptors lateFebruary).values.map
      EntityDescriptor.changelogDate = dates.map some ∧ CountsFrom lateFebruary dates := by
  have hship : Reachable _ := .entity .empty
    (addEntity_eq_ok.mpr ⟨(by decide : (Entity.named "Ship").problems = []), rfl⟩)
  have hport : Reachable _ := .entity hship
    (addEntity_eq_ok.mpr ⟨(by decide : (Entity.named "Port").problems = []), rfl⟩)
  have hreach : fleet.Reachable := .entity hport
    (addEntity_eq_ok.mpr ⟨(by decide : (Entity.named "Crew").problems = []), rfl⟩)
  have hyears := Gregorian.le_daysBeforeYear 10000
  have hstart : InFourDigitYears lateFebruary := by
    rw [InFourDigitYears, Gregorian.dayNumber_newYear, Gregorian.dayNumber_newYear, lateFebruary,
      Gregorian.daysBeforeYear]
    omega
  have hend : InFourDigitYears (lateFebruary + fleet.entities.size) := by
    rw [show fleet.entities.size = 3 from rfl, InFourDigitYears, Gregorian.dayNumber_newYear,
      Gregorian.dayNumber_newYear, lateFebruary, Gregorian.daysBeforeYear]
    omega
  exact ⟨hreach, hstart, hend, countsFrom_changelogDates hreach hstart hend⟩

end Model
end DomainModel
