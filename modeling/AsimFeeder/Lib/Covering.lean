/-
One description of a space cut into pieces in two ways.

The pieces of `parts` and of `whole` each cover some points.  `Covering` says that
`whole` has no point twice, has the points of `parts` and no others, and says at each
of them what the piece of `parts` there says.  A covering grows by a piece at a time,
as long as the new piece has no point the old ones have (`Covering.push`).
-/
import Mathlib

namespace AsimFeeder.Lib

variable {α β V : Type} {inPart : α → V → Prop} {inWhole : β → V → Prop} {same : α → β → V → Prop}

structure Covering (inPart : α → V → Prop) (inWhole : β → V → Prop) (same : α → β → V → Prop)
    (parts : List α) (whole : List β) : Prop where
  disjoint : whole.Pairwise fun g g' => ∀ v, inWhole g v → ¬ inWhole g' v
  union : ∀ v, (∃ g ∈ whole, inWhole g v) ↔ ∃ r ∈ parts, inPart r v
  agree : ∀ g ∈ whole, ∀ r ∈ parts, ∀ v, inWhole g v → inPart r v → same r g v

theorem covering_nil : Covering inPart inWhole same ([] : List α) ([] : List β) where
  disjoint := List.Pairwise.nil
  union := by simp
  agree := by simp

/-- Pieces `cur` that one piece `g` describes, away from those described before. -/
theorem Covering.push {old cur : List α} {done : List β} {g : β}
    (h : Covering inPart inWhole same old done)
    (hunion : ∀ v, inWhole g v ↔ ∃ r ∈ cur, inPart r v)
    (hagree : ∀ r ∈ cur, ∀ v, inPart r v → same r g v)
    (hapart : ∀ r ∈ old, ∀ v, inPart r v → ¬ inWhole g v) :
    Covering inPart inWhole same (old ++ cur) (g :: done) where
  disjoint := by
    refine List.pairwise_cons.mpr ⟨?_, h.disjoint⟩
    intro g' hg' v hv hv'
    obtain ⟨r, hr, hrv⟩ := (h.union v).mp ⟨g', hg', hv'⟩
    exact hapart r hr v hrv hv
  union := by
    intro v
    constructor
    · rintro ⟨g', hg', hv⟩
      rcases List.mem_cons.mp hg' with rfl | hg'
      · obtain ⟨r, hr, hrv⟩ := (hunion v).mp hv
        exact ⟨r, List.mem_append_right _ hr, hrv⟩
      · obtain ⟨r, hr, hrv⟩ := (h.union v).mp ⟨g', hg', hv⟩
        exact ⟨r, List.mem_append_left _ hr, hrv⟩
    · rintro ⟨r, hr, hv⟩
      rcases List.mem_append.mp hr with hr | hr
      · obtain ⟨g', hg', hv'⟩ := (h.union v).mpr ⟨r, hr, hv⟩
        exact ⟨g', List.mem_cons_of_mem _ hg', hv'⟩
      · exact ⟨g, List.mem_cons_self, (hunion v).mpr ⟨r, hr, hv⟩⟩
  agree := by
    intro g' hg' r hr v hv hrv
    rcases List.mem_cons.mp hg' with rfl | hg'
    · rcases List.mem_append.mp hr with hr | hr
      · exact absurd hv (hapart r hr v hrv)
      · exact hagree r hr v hrv
    · rcases List.mem_append.mp hr with hr | hr
      · exact h.agree g' hg' r hr v hv hrv
      -- A point of both is a point of an old piece too.
      · obtain ⟨r', hr', hrv'⟩ := (h.union v).mp ⟨g', hg', hv⟩
        exact absurd ((hunion v).mpr ⟨r, hr, hrv⟩) (hapart r' hr' v hrv')

end AsimFeeder.Lib
