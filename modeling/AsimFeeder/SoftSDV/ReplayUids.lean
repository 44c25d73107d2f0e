/-
Queue distances of the replay buffer.

Distances in the buffer are differences of uids, which one counter hands out.  They are
sound as long as uids increase along the list: then `k` entries in a row span at least
`k` uids, and no difference wraps around.  Adding at the tail keeps the order, and so does
a deletion, which gives the deleted uid to the entry in front.

A place holder does not.  It takes the newest uid and goes in front of an old entry, so
runs here make none, and stop before the counter wraps.  One more number is off in such
runs: with every entry fetched, `SetNextFetch` subtracts from the counter itself and
counts one entry less than it takes back, unless a deletion has left a gap to make up.
-/
import Mathlib
import AsimFeeder.SoftSDV.ReplayRuns

namespace AsimFeeder.SoftSDV

open AsimFeeder.Lib AsimFeeder.Lib.Links

variable {Data Rep Regs : Type}

/-! ### Increasing numbers -/

section Increasing

variable {us : List Nat} {lo hi : Nat}

/-- Increasing numbers between two bounds are no more than the bounds leave room for. -/
theorem length_le_of_increasing (h : us.Pairwise (· < ·)) (hb : ∀ u ∈ us, lo ≤ u ∧ u ≤ hi) :
    us.length ≤ hi + 1 - lo := by
  have hnd : us.Nodup := h.imp fun hlt => Nat.ne_of_lt hlt
  calc us.length = us.toFinset.card := (List.toFinset_card_of_nodup hnd).symm
    _ ≤ (Finset.Icc lo hi).card := Finset.card_le_card fun u hu =>
        Finset.mem_Icc.mpr (hb u (List.mem_toFinset.mp hu))
    _ = hi + 1 - lo := Nat.card_Icc lo hi

/-- They fill the room between the bounds iff every number there is one of them. -/
theorem length_lt_iff_of_increasing (h : us.Pairwise (· < ·))
    (hb : ∀ u ∈ us, lo ≤ u ∧ u ≤ hi) :
    us.length < hi + 1 - lo ↔ ∃ u, lo ≤ u ∧ u ≤ hi ∧ u ∉ us := by
  have hnd : us.Nodup := h.imp fun hlt => Nat.ne_of_lt hlt
  have hsub : us.toFinset ⊆ Finset.Icc lo hi := fun u hu =>
    Finset.mem_Icc.mpr (hb u (List.mem_toFinset.mp hu))
  rw [← Nat.card_Icc, ← List.toFinset_card_of_nodup hnd]
  constructor
  · intro hlt
    obtain ⟨u, hu, hnot⟩ := Finset.exists_mem_notMem_of_card_lt_card hlt
    have hmem := Finset.mem_Icc.mp hu
    exact ⟨u, hmem.1, hmem.2, fun hu => hnot (List.mem_toFinset.mpr hu)⟩
  · rintro ⟨u, hlo, hhi, hnot⟩
    refine Finset.card_lt_card (Finset.ssubset_iff_subset_ne.mpr ⟨hsub, ?_⟩)
    intro heq
    have hu : u ∈ us.toFinset := by
      rw [heq]
      exact Finset.mem_Icc.mpr ⟨hlo, hhi⟩
    exact hnot (List.mem_toFinset.mp hu)

end Increasing

/-! ### The invariant -/

namespace ReplayList

/-- The uids of a list of cells. -/
def uids (l : ReplayList Data) (rs : List Ref) : List Nat := rs.map fun r => (l.entry r).uid.toNat

/-- Uids increase along the list and come from the counter. -/
structure UidsIncrease (l : ReplayList Data) (live : List Ref) : Prop where
  increasing : (l.uids live).Pairwise (· < ·)
  bounded : ∀ u ∈ l.uids live, 1 ≤ u ∧ u ≤ l.uid.toNat

variable {l l' : ReplayList Data} {live xs ys : List Ref} {r : Ref}

theorem uids_congr (h : ∀ r ∈ live, (l'.entry r).uid = (l.entry r).uid) :
    l'.uids live = l.uids live :=
  List.map_congr_left fun r hr => by rw [h r hr]

/-- Fewer uids of the same counter. -/
theorem UidsIncrease.sublist {live' : List Ref} (h : l.UidsIncrease live)
    (hsub : (l'.uids live').Sublist (l.uids live)) (huid : l'.uid = l.uid) :
    l'.UidsIncrease live' where
  increasing := h.increasing.sublist hsub
  bounded := by
    intro u hu
    rw [huid]
    exact h.bounded u (hsub.mem hu)

theorem UidsIncrease.append {e : Entry Data} (h : l.UidsIncrease live)
    (hadd : ReplayBuffer.Added l l' live r e) (he : e.uid = l.uid + 1)
    (hroom : l.uid.toNat + 1 < 2 ^ 64) : l'.UidsIncrease (live ++ [r]) := by
  have hcount : (l.uid + 1).toNat = l.uid.toNat + 1 := by
    rw [UInt64.toNat_add]
    exact Nat.mod_eq_of_lt hroom
  have huids : l'.uids (live ++ [r]) = l.uids live ++ [l.uid.toNat + 1] := by
    have hold : l'.uids live = l.uids live := uids_congr fun s hs => by rw [hadd.entry s hs]
    unfold uids at hold ⊢
    rw [List.map_append, hold, List.map_cons, hadd.new, he, hcount, List.map_nil]
  constructor
  · rw [huids, List.pairwise_append]
    refine ⟨h.increasing, List.pairwise_singleton _ _, ?_⟩
    intro u hu v hv
    rw [List.mem_singleton.mp hv]
    exact Nat.lt_succ_of_le (h.bounded u hu).2
  · intro u hu
    rw [huids] at hu
    rw [hadd.uid, hcount]
    rcases List.mem_append.mp hu with hu | hu
    · have := h.bounded u hu
      omega
    · rw [List.mem_singleton.mp hu]
      omega

/-- Moving a uid to the entry in front leaves the uids of the list without that entry's. -/
theorem uids_moveUid {p : Option Ref} (hnd : (xs ++ r :: ys).Nodup) (hp : p = xs.getLast?)
    (hentry : l'.entry = ReplayBuffer.moveUid l.entry r p) :
    (l'.uids (xs ++ ys)).Sublist (l.uids (xs ++ r :: ys)) := by
  rcases List.eq_nil_or_concat xs with rfl | ⟨zs, z, rfl⟩
  · subst hp
    have hsame : l'.uids ys = l.uids ys := uids_congr fun s _ => by rw [hentry]; rfl
    show (l'.uids ys).Sublist (l.uids (r :: ys))
    rw [hsame]
    exact List.sublist_cons_self ..
  · rw [List.concat_eq_append] at *
    rw [List.getLast?_concat] at hp
    subst hp
    have hz : ∀ s ∈ zs ++ ys, s ≠ z := by
      intro s hs e
      subst e
      rw [List.append_assoc] at hnd
      rcases List.mem_append.mp hs with hs | hs
      · exact not_mem_right hnd s hs (by simp)
      · exact (List.nodup_cons.mp (List.nodup_append.mp hnd).2.1).1 (by simp [hs])
    have hother : ∀ s ∈ zs ++ ys, l'.entry s = l.entry s := by
      intro s hs
      rw [hentry]
      exact Function.update_of_ne (hz s hs) ..
    have hmoved : (l'.entry z).uid = (l.entry r).uid := by
      rw [hentry]
      show (Function.update l.entry z _ z).uid = _
      rw [Function.update_self]
    have huids : l'.uids (zs ++ [z] ++ ys) = l.uids (zs ++ r :: ys) := by
      have hleft : l'.uids zs = l.uids zs :=
        uids_congr fun s hs => by rw [hother s (List.mem_append_left _ hs)]
      have hright : l'.uids ys = l.uids ys :=
        uids_congr fun s hs => by rw [hother s (List.mem_append_right _ hs)]
      unfold uids at hleft hright ⊢
      rw [List.map_append, List.map_append, List.map_append, hleft, hright, List.map_cons,
        List.map_cons, hmoved, List.map_nil, List.append_assoc]
      rfl
    rw [huids, List.append_assoc]
    exact List.Sublist.map _ (List.Sublist.append (List.Sublist.refl _) (List.sublist_cons_self ..))

end ReplayList

/-! ### Runs without place holders -/

/-- One call that makes no place holder and does not make the uid counter wrap. -/
def CountingStep (s t : ReplayBuffer Data Rep Regs × ReplayHistory Data) : Prop :=
  ∃ op : ReplayOp Data Regs, op.Allowed s ∧ op.exec s = .ok t ∧
    (∀ r, op ≠ .addArtificialPlaceHolder r) ∧
    (∀ i, op = .addInstruction i → s.1.uid.toNat + 1 < 2 ^ 64)

open ReplayList in
theorem ReplayEffect.uidsIncrease {s t : ReplayBuffer Data Rep Regs × ReplayHistory Data}
    {op : ReplayOp Data Regs} (h : ReplayEffect s t op)
    (hwf : ∃ free, s.1.list.WF s.2.live free) (hs : s.1.list.UidsIncrease s.2.live)
    (hplace : ∀ r, op ≠ .addArtificialPlaceHolder r)
    (hadd : ∀ i, op = .addInstruction i → s.1.uid.toNat + 1 < 2 ^ 64) :
    t.1.list.UidsIncrease t.2.live := by
  obtain ⟨free, hwf⟩ := hwf
  have hnd := (List.nodup_append.mp hwf.nodup).1
  cases h with
  | add history added =>
      rw [history]
      exact hs.append added rfl (hadd _ rfl)
  | place live history added => exact absurd rfl (hplace _)
  | delete live history entry uid =>
      rw [history]
      rw [live] at hs hnd
      exact hs.sublist (uids_moveUid hnd rfl entry) uid
  | commit live history kept =>
      rw [history]
      rw [live] at hs
      refine hs.sublist ?_ kept.uid
      rw [uids_congr (l := s.1.list) fun r _ => by rw [kept.entry]]
      exact List.Sublist.map _
        ((List.sublist_cons_self ..).trans (List.sublist_append_right ..))
  | keep moves history entry uid =>
      rw [history]
      refine hs.sublist ?_ uid
      have hsame : t.1.list.uids s.2.live = s.1.list.uids s.2.live := uids_congr fun r _ => by
        obtain ⟨v, hv⟩ := entry r
        rw [hv]
      rw [hsame]

theorem uidsIncrease_of_reaches {s : ReplayBuffer Data Rep Regs × ReplayHistory Data}
    (h : Reaches ReplayStart CountingStep s) :
    (∃ free, s.1.list.WF s.2.live free) ∧ s.1.list.UidsIncrease s.2.live := by
  refine h.invariant
    (P := fun s => (∃ free, s.1.list.WF s.2.live free) ∧ s.1.list.UidsIncrease s.2.live) ?_ ?_
  · intro s hs
    refine ⟨(tracks_of_replayStart hs).wf, ?_⟩
    obtain ⟨cell, regCell, serial, rfl⟩ := hs
    exact ⟨List.Pairwise.nil, by intro u hu; cases hu⟩
  · rintro s t ⟨hwf, hs⟩ ⟨op, hop, hexec, hplace, hadd⟩
    obtain ⟨hwf', heffect⟩ := ReplayEffect.of_exec hwf hop hexec
    exact ⟨hwf', heffect.uidsIncrease hwf hs hplace hadd⟩

/-! ### Distances -/

namespace ReplayBuffer

variable {b : ReplayBuffer Data Rep Regs} {live xs ms ys : List Ref} {r c : Ref}

/-- What queue distances owe their callers, apart from a rewind from the end of the list. -/
structure DistancesSound (b : ReplayBuffer Data Rep Regs) (live : List Ref) : Prop where
  increasing : live.Pairwise fun r s => (b.cell r).uid < (b.cell s).uid
  bounded : ∀ r ∈ live, (b.cell r).uid ≤ b.uid
  unfetched : ∀ c, b.nextFetch = some c →
    b.nUnfetchedQueuedInstrs.toNat = b.uid.toNat - (b.cell c).uid.toNat + 1 ∧
    (fromOn c live).length ≤ b.nUnfetchedQueuedInstrs.toNat
  rewind : ∀ c r, b.nextFetch = some c → r ∈ live → c ∈ fromOn r live →
    (b.cell r).uid ≤ (b.cell c).uid ∧
    (before c (fromOn r live)).length ≤ (b.setNextFetch (some r)).2.toNat

/-- What `SetNextFetch` owes its caller when every entry has been fetched. -/
def RewindFromEnd (b : ReplayBuffer Data Rep Regs) (live : List Ref) (r : Ref) : Prop :=
  (b.cell r).uid ≤ b.uid ∧ (fromOn r live).length ≤ (b.setNextFetch (some r)).2.toNat

/-- Some uid behind that of `r` is carried by no entry: a deletion took it. -/
def GapBehind (b : ReplayBuffer Data Rep Regs) (live : List Ref) (r : Ref) : Prop :=
  ∃ u, (b.cell r).uid < u ∧ u ≤ b.uid ∧ ∀ s ∈ live, (b.cell s).uid ≠ u

/-- The uids of the entries from one on increase and start with its own. -/
theorem uids_from (h : b.list.UidsIncrease (xs ++ r :: ys)) :
    (b.list.uids (r :: ys)).Pairwise (· < ·) ∧
      ∀ u ∈ b.list.uids (r :: ys), (b.cell r).uid.toNat ≤ u ∧ u ≤ b.uid.toNat := by
  have hsub : (b.list.uids (r :: ys)).Sublist (b.list.uids (xs ++ r :: ys)) :=
    List.Sublist.map _ (List.sublist_append_right ..)
  have hinc := h.increasing.sublist hsub
  refine ⟨hinc, ?_⟩
  intro u hu
  refine ⟨?_, (h.bounded u (hsub.mem hu)).2⟩
  rcases List.mem_cons.mp hu with rfl | hu
  · exact Nat.le_refl _
  · exact Nat.le_of_lt ((List.pairwise_cons.mp hinc).1 u hu)

theorem toNat_sub {x y : UInt64} (h : x.toNat ≤ y.toNat) : (y - x).toNat = y.toNat - x.toNat :=
  UInt64.toNat_sub_of_le _ _ (UInt64.le_iff_toNat_le.mpr h)

/-- Everything that does not involve a null cursor is sound when uids increase. -/
theorem distancesSound {free : List Ref} (hwf : b.list.WF live free)
    (h : b.list.UidsIncrease live) : b.DistancesSound live := by
  have hnd := (List.nodup_append.mp hwf.nodup).1
  have hsplit : ∀ {r}, r ∈ live → ∃ xs ys, live = xs ++ r :: ys ∧ fromOn r live = r :: ys := by
    intro r hr
    obtain ⟨xs, ys, hlive⟩ := List.append_of_mem hr
    rw [hlive] at hnd
    exact ⟨xs, ys, hlive, by
      rw [hlive, fromOn_append (not_mem_left hnd r List.mem_cons_self)]⟩
  have hbound : ∀ r ∈ live, 1 ≤ (b.cell r).uid.toNat ∧ (b.cell r).uid.toNat ≤ b.uid.toNat :=
    fun r hr => h.bounded _ (List.mem_map_of_mem hr)
  constructor
  · exact (List.pairwise_map.mp h.increasing).imp fun hlt => UInt64.lt_iff_toNat_lt.mpr hlt
  · exact fun r hr => UInt64.le_iff_toNat_le.mpr (hbound r hr).2
  · intro c hc
    have hmem := hwf.cursor c hc
    obtain ⟨xs, ys, hlive, hfrom⟩ := hsplit hmem
    obtain ⟨hpos, hle⟩ := hbound c hmem
    rw [hlive] at h
    obtain ⟨hinc, hb⟩ := uids_from h
    have hlen := length_le_of_increasing hinc hb
    have hn : b.nUnfetchedQueuedInstrs.toNat = b.uid.toNat - (b.cell c).uid.toNat + 1 := by
      have hlt := b.uid.toNat_lt
      unfold nUnfetchedQueuedInstrs
      rw [hc]
      show (b.uid - (b.cell c).uid + 1).toNat = _
      rw [UInt64.toNat_add, toNat_sub hle]
      exact Nat.mod_eq_of_lt (by show _ - _ + 1 < 2 ^ 64; omega)
    refine ⟨hn, ?_⟩
    rw [hfrom, hn]
    unfold ReplayList.uids at hlen
    rw [List.length_map] at hlen
    omega
  · intro c r hc hr hcr
    obtain ⟨xs, ys, hlive, hfrom⟩ := hsplit hr
    rw [hfrom] at hcr ⊢
    rw [hlive] at h hnd
    have hnd' := (List.nodup_append.mp hnd).2.1
    obtain ⟨hinc, hb⟩ := uids_from h
    -- `r :: ys` is cut at the cursor.
    obtain ⟨us, vs, hcut⟩ := List.append_of_mem hcr
    rw [hcut] at hinc hb hnd' ⊢
    rw [before_append (not_mem_left hnd' c List.mem_cons_self)]
    have hrc : (b.cell r).uid.toNat ≤ (b.cell c).uid.toNat :=
      (hb _ (List.mem_map_of_mem (by simp))).1
    have hus : (b.list.uids us).Pairwise (· < ·) ∧
        ∀ u ∈ b.list.uids us, (b.cell r).uid.toNat ≤ u ∧ u < (b.cell c).uid.toNat := by
      have happ : b.list.uids (us ++ c :: vs) = b.list.uids us ++ b.list.uids (c :: vs) :=
        List.map_append
      rw [happ] at hinc hb
      rw [List.pairwise_append] at hinc
      refine ⟨hinc.1, fun u hu => ⟨(hb u (List.mem_append_left _ hu)).1, ?_⟩⟩
      exact hinc.2.2 u hu _ List.mem_cons_self
    have hkilled : (b.setNextFetch (some r)).2.toNat =
        (b.cell c).uid.toNat - (b.cell r).uid.toNat := by
      show (b.nKilled r).toNat = _
      unfold nKilled
      rw [hc]
      exact toNat_sub hrc
    refine ⟨UInt64.le_iff_toNat_le.mpr hrc, ?_⟩
    rw [hkilled]
    cases us with
    | nil => exact Nat.zero_le _
    | cons a us =>
        have hbelow : ∀ u ∈ b.list.uids (a :: us),
            (b.cell r).uid.toNat ≤ u ∧ u ≤ (b.cell c).uid.toNat - 1 := by
          intro u hu
          have := hus.2 u hu
          omega
        have hlen := length_le_of_increasing hus.1 hbelow
        have hlt := hus.2 _ List.mem_cons_self
        unfold ReplayList.uids at hlen
        rw [List.length_map] at hlen
        omega

/-- With everything fetched, a rewind counts enough iff a deletion left a gap. -/
theorem rewindFromEnd_iff {free : List Ref} (hwf : b.list.WF live free)
    (h : b.list.UidsIncrease live) (hc : b.nextFetch = none) (hr : r ∈ live) :
    b.RewindFromEnd live r ↔ b.GapBehind live r := by
  have hnd := (List.nodup_append.mp hwf.nodup).1
  obtain ⟨xs, ys, hlive⟩ := List.append_of_mem hr
  rw [hlive] at h hnd
  have hfrom : fromOn r live = r :: ys := by
    rw [hlive, fromOn_append (not_mem_left hnd r List.mem_cons_self)]
  obtain ⟨hinc, hb⟩ := uids_from h
  have hle : (b.cell r).uid.toNat ≤ b.uid.toNat := (hb _ List.mem_cons_self).2
  have hkilled : (b.setNextFetch (some r)).2.toNat = b.uid.toNat - (b.cell r).uid.toNat := by
    show (b.nKilled r).toNat = _
    unfold nKilled
    rw [hc]
    exact toNat_sub hle
  have hlen : (b.list.uids (r :: ys)).length = (r :: ys).length := List.length_map ..
  have hiff := length_lt_iff_of_increasing hinc hb
  rw [hlen] at hiff
  constructor
  · rintro ⟨-, hcount⟩
    rw [hkilled, hfrom] at hcount
    obtain ⟨u, hlo, hhi, hnot⟩ := hiff.mp (by omega)
    have hu : u < 2 ^ 64 := Nat.lt_of_le_of_lt hhi b.uid.toNat_lt
    have hto : (UInt64.ofNat u).toNat = u := UInt64.toNat_ofNat_of_lt' hu
    have hne : u ≠ (b.cell r).uid.toNat := fun e => hnot (e ▸ List.mem_cons_self)
    refine ⟨UInt64.ofNat u, ?_, ?_, ?_⟩
    · rw [UInt64.lt_iff_toNat_lt, hto]
      omega
    · rw [UInt64.le_iff_toNat_le, hto]
      exact hhi
    · intro s hs hsu
      have hsu' : (b.cell s).uid.toNat = u := by rw [hsu, hto]
      rw [hlive] at hs
      -- Behind `r` there is no such uid, and in front of it uids are smaller.
      rcases List.mem_append.mp hs with hs | hs
      · have hpair := h.increasing
        unfold ReplayList.uids at hpair
        rw [List.map_append, List.pairwise_append] at hpair
        have hlt : (b.cell s).uid.toNat < (b.cell r).uid.toNat :=
          hpair.2.2 _ (List.mem_map_of_mem hs) _ List.mem_cons_self
        omega
      · exact hnot (List.mem_map.mpr ⟨s, hs, hsu'⟩)
  · rintro ⟨u, hlo, hhi, hnot⟩
    refine ⟨UInt64.le_iff_toNat_le.mpr hle, ?_⟩
    rw [hkilled, hfrom]
    have hlt := hiff.mpr ⟨u.toNat, Nat.le_of_lt (UInt64.lt_iff_toNat_lt.mp hlo),
      UInt64.le_iff_toNat_le.mp hhi, ?_⟩
    · omega
    · intro hmem
      obtain ⟨s, hs, hsu⟩ := List.mem_map.mp hmem
      exact hnot s (hlive ▸ List.mem_append_right _ hs) (UInt64.toNat_inj.mp hsu)

end ReplayBuffer

/--
**Queue distances are sound as long as uids are handed out at the tail.**

In every run that makes no place holder and does not wrap the counter, uids increase
along the list and come from the counter, `NUnfetchedQueuedInstrs` and a `SetNextFetch`
back from a live cursor never underflow and never count too little, and a `SetNextFetch`
with everything fetched counts enough exactly when there is a gap in the uids behind its
entry.
-/
theorem queueDistances_sound {s : ReplayBuffer Data Rep Regs × ReplayHistory Data}
    (h : Reaches ReplayStart CountingStep s) :
    s.1.DistancesSound s.2.live ∧
    (s.1.nextFetch = none → ∀ r ∈ s.2.live,
      (s.1.RewindFromEnd s.2.live r ↔ s.1.GapBehind s.2.live r)) := by
  obtain ⟨⟨free, hwf⟩, huids⟩ := uidsIncrease_of_reaches h
  exact ⟨ReplayBuffer.distancesSound hwf huids,
    fun hc r hr => ReplayBuffer.rewindFromEnd_iff hwf huids hc hr⟩

/-- Two instructions are added and the first is fetched. -/
theorem queueDistances_sound_two :
    ∃ s : ReplayBuffer Nat Unit Unit × ReplayHistory Nat, s.2.live = [0, 1] ∧
      s.1.nextFetch = some 1 ∧ s.1.DistancesSound s.2.live := by
  have hstart : Reaches ReplayStart CountingStep
      (zeroReplayBuffer, (⟨[], [], fun _ => 0, []⟩ : ReplayHistory Nat)) :=
    .start ⟨_, _, _, rfl⟩
  have hadd := hstart.step ⟨.addInstruction ⟨0, none, 7⟩, trivial, rfl, nofun, fun _ _ => by decide⟩
  have hadd₂ := hadd.step ⟨.addInstruction ⟨0, none, 8⟩, trivial, rfl, nofun, fun _ _ => by decide⟩
  have hfetch := hadd₂.step ⟨.getNextFetchHandle, trivial, rfl, nofun, nofun⟩
  exact ⟨_, rfl, rfl, (queueDistances_sound hfetch).1⟩

/-- A place holder is always out of order. -/
theorem placeHolder_out_of_order {s t : ReplayBuffer Data Rep Regs × ReplayHistory Data} {r : Ref}
    (h : ReplayEffect s t (.addArtificialPlaceHolder r)) (hs : s.1.DistancesSound s.2.live)
    (hroom : s.1.uid.toNat + 1 < 2 ^ 64) :
    ¬ t.2.live.Pairwise fun r s => (t.1.cell r).uid < (t.1.cell s).uid := by
  cases h with
  | place live history added =>
      rename_i instr xs ys p
      rw [history]
      intro hpair
      have hreal : r ∈ s.2.live := by rw [live]; simp
      have hlt : (t.1.list.entry p).uid < (t.1.list.entry r).uid :=
        (List.pairwise_cons.mp (List.pairwise_append.mp hpair).2.1).1 r List.mem_cons_self
      rw [added.new, added.entry r hreal] at hlt
      have hle := UInt64.le_iff_toNat_le.mp (hs.bounded r hreal)
      have hlt := UInt64.lt_iff_toNat_lt.mp hlt
      have hcount : (s.1.uid + 1).toNat = s.1.uid.toNat + 1 := by
        rw [UInt64.toNat_add]
        exact Nat.mod_eq_of_lt hroom
      have hlt : (s.1.uid + 1).toNat < (s.1.cell r).uid.toNat := hlt
      omega
  | keep moves history entry uid => exact absurd rfl (moves r)

/--
Neither half holds of all runs: a place holder takes the newest uid, and a rewind from
the end of a list of one entry counts none.
-/
theorem queueDistances_unsound :
    (¬ ∀ s : ReplayBuffer Nat Unit Unit × ReplayHistory Nat, Reaches ReplayStart ReplayStep s →
      s.1.DistancesSound s.2.live) ∧
    (¬ ∀ s : ReplayBuffer Nat Unit Unit × ReplayHistory Nat, Reaches ReplayStart ReplayStep s →
      s.1.nextFetch = none → ∀ r ∈ s.2.live, s.1.RewindFromEnd s.2.live r) := by
  have hadd := reaches_zero.step ⟨.addInstruction ⟨0, none, 7⟩, trivial, rfl⟩
  constructor
  · intro h
    have hplace := hadd.step ⟨.addArtificialPlaceHolder 0, List.mem_singleton.mpr rfl, rfl⟩
    have hlt := (List.pairwise_cons.mp (h _ hplace).increasing).1 0 List.mem_cons_self
    exact absurd hlt (by decide)
  · intro h
    have hfetch := hadd.step ⟨.getNextFetchHandle, trivial, rfl⟩
    have hcount := (h _ hfetch rfl 0 List.mem_cons_self).2
    exact absurd hcount (by decide)

end AsimFeeder.SoftSDV
