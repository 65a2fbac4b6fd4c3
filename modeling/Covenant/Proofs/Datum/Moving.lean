import Covenant.Proofs.Datum.Each
import Covenant.Proofs.Value.Remarking
/-!
Moving the marks of places.

* `Datum.Fresh`: data without marks of places, as they are before anything is read of them;
* `Origin.Apart`: paths of which none begins another;
* `Origin.moved`: the marks below each of such paths become marks below another one, and different marks
  stay apart when the paths change places (`Origin.moved_injective`).
-/

namespace Covenant

/-- No mark in the datum stands for a place. -/
def Datum.Fresh (d : Datum) : Prop := d.Each fun a => ∀ path, a ≠ .float (.nan (.place path))

def Origin.MovesPlaces (f : Origin → Origin) : Prop := ∀ o, (∀ path, o ≠ .place path) → f o = o

theorem Datum.Fresh.remarked {f : Origin → Origin} (moves : Origin.MovesPlaces f) {d : Datum}
    (h : d.Fresh) : d.remarked f = d := by
  induction h with
  | @atom d plain fresh =>
    cases d with
    | float x =>
      cases x with
      | nan o =>
        exact congrArg (fun o => float (.nan o)) (moves o fun path here => fresh path (by rw [here]))
      | number => rfl
    | list | record => cases plain
    | _ => rfl
  | list each ih => rw [remarked_list, List.map_congr_left ih, List.map_id']
  | record each ih =>
    rw [remarked_record]
    refine congrArg record ((List.map_congr_left fun m hm => ?_).trans (List.map_id' _))
    rw [ih m hm]

namespace Origin

variable {ι : Type} {paths paths' : ι → String}

/-- Paths of which none begins another. -/
def Apart (paths : ι → String) : Prop := ∀ i j s t, paths i ++ s = paths j ++ t → i = j

open Classical in
/-- The marks of places below some paths become those of the same places below others. -/
noncomputable def moved (paths paths' : ι → String) : Origin → Origin
  | .place path =>
    if h : ∃ p : ι × String, path = paths p.1 ++ p.2 then .place (paths' h.choose.1 ++ h.choose.2)
    else .place path
  | o => o

theorem movesPlaces_moved : MovesPlaces (moved paths paths') := by
  intro o other
  cases o with
  | place path => exact absurd rfl (other path)
  | _ => rfl

theorem moves_moved (apart : Apart paths) (paths' : ι → String) (i : ι) :
    Moves (moved paths paths') (paths i) (paths' i) := by
  intro rest
  have h : ∃ p : ι × String, paths i ++ rest = paths p.1 ++ p.2 := ⟨(i, rest), rfl⟩
  rw [moved, dif_pos h]
  have found := h.choose_spec
  have here := apart _ _ _ _ found
  rw [← here, String.append_right_inj] at found
  rw [← here, ← found]

theorem moved_of_ne {path : String} (h : ∀ i s, path ≠ paths i ++ s) :
    moved paths paths' (.place path) = .place path :=
  dif_neg fun ⟨p, same⟩ => h p.1 p.2 same

/-- Different marks stay apart when the paths take each other's places. -/
theorem moved_injective (apart : Apart paths) {σ : ι → ι} (inj : σ.Injective) :
    (moved paths fun i => paths (σ i)).Injective := by
  have cases : ∀ o, (∃ i s, o = .place (paths i ++ s) ∧
      moved paths (fun i => paths (σ i)) o = .place (paths (σ i) ++ s)) ∨
      ((∀ i s, o ≠ .place (paths i ++ s)) ∧ moved paths (fun i => paths (σ i)) o = o) := by
    intro o
    by_cases below : ∃ i s, o = .place (paths i ++ s)
    · obtain ⟨i, s, rfl⟩ := below
      exact .inl ⟨i, s, rfl, moves_moved apart _ i s⟩
    · simp only [not_exists] at below
      refine .inr ⟨below, ?_⟩
      cases o with
      | place path => exact moved_of_ne fun i s same => below i s (congrArg place same)
      | _ => rfl
  intro a b same
  rcases cases a with ⟨i, s, rfl, ha⟩ | ⟨other, ha⟩ <;> rcases cases b with ⟨j, t, rfl, hb⟩ | ⟨other', hb⟩
  all_goals rw [ha, hb] at same
  · rw [place.injEq] at same
    obtain rfl := inj (apart _ _ _ _ same)
    rw [String.append_right_inj] at same
    rw [same]
  · exact absurd same.symm (other' _ _)
  · exact absurd same (other _ _)
  · exact same

end Origin

end Covenant
