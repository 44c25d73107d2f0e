/-
The replay buffer keeps its list well formed.

A run is told by its history: which cells are live, in order, and which of the added
instructions each of them holds.  An instruction leaves the history when it commits,
explicitly or on the way to a later commit, or when it is deleted.  A place holder is
live but holds no added instruction.

`Tracks` ties the buffer to its history.  Every operation keeps it, and none of them
follows a null pointer or fails an assertion.
-/
import Mathlib
import AsimFeeder.Lib.Runs
import AsimFeeder.SoftSDV.ReplayOps

namespace AsimFeeder.SoftSDV

open AsimFeeder.Lib AsimFeeder.Lib.Links

variable {Data Rep Regs : Type}

/--
What has happened to a buffer.  `live` lists the live cells from head to tail, `added`
every instruction ever added, `serial` says which of these a live cell holds, and
`gone` lists those that were committed or deleted.
-/
structure ReplayHistory (Data : Type) where
  live : List Ref
  added : List (SdvInstr Data)
  serial : Ref → Nat
  gone : List Nat

/-- The cells of the list in front of `r`. -/
def before (r : Ref) (live : List Ref) : List Ref := live.takeWhile (· ≠ r)

/-- The cells of the list from `r` on. -/
def fromOn (r : Ref) (live : List Ref) : List Ref := live.dropWhile (· ≠ r)

theorem before_append {r : Ref} {xs ys : List Ref} (hr : r ∉ xs) :
    before r (xs ++ r :: ys) = xs := by
  unfold before
  rw [List.takeWhile_append_of_pos]
  · simp
  · intro a ha
    have hne : a ≠ r := fun e => hr (e ▸ ha)
    simpa using hne

theorem fromOn_append {r : Ref} {xs ys : List Ref} (hr : r ∉ xs) :
    fromOn r (xs ++ r :: ys) = r :: ys := by
  unfold fromOn
  rw [List.dropWhile_append_of_pos]
  · simp
  · intro a ha
    have hne : a ≠ r := fun e => hr (e ▸ ha)
    simpa using hne

/-! ### The operations and their history -/

inductive ReplayOp (Data Regs : Type)
  | addInstruction (newInstr : SdvInstr Data)
  | addArtificialPlaceHolder (realInstr : Ref)
  | deleteInstruction (liveInstr : Ref)
  | getNextFetchHandle
  | getNextRealFetchHandle
  | setNextFetch (liveInstr : Ref)
  | commitInstruction (liveInstr : Ref)
  | setImplicitCommit (liveInstr : Ref) (v : Bool)
  | pushRegisterValues (rv : RegInfo Regs)

namespace ReplayBuffer

/-- The cells that hold an instruction from SoftSDV. -/
def reals (b : ReplayBuffer Data Rep Regs) (rs : List Ref) : List Ref :=
  rs.filter fun r => !(b.cell r).artificialInstr

/-- The live cells that the fetch cursor has passed. -/
def fetched (b : ReplayBuffer Data Rep Regs) (live : List Ref) : List Ref :=
  match b.nextFetch with
  | none => live
  | some c => before c live

end ReplayBuffer

namespace ReplayOp

/-- When a feeder makes the call. -/
def Allowed (s : ReplayBuffer Data Rep Regs × ReplayHistory Data) : ReplayOp Data Regs → Prop
  | addInstruction _ | getNextFetchHandle | getNextRealFetchHandle | pushRegisterValues _ => True
  | addArtificialPlaceHolder r | deleteInstruction r | setNextFetch r | setImplicitCommit r _ =>
      r ∈ s.2.live
  | commitInstruction r => r ∈ s.1.fetched s.2.live ∧
      ∀ a ∈ before r s.2.live, (s.1.cell a).implicitCommit = true

/-- The call, and what the history makes of it. -/
def exec (s : ReplayBuffer Data Rep Regs × ReplayHistory Data) :
    ReplayOp Data Regs → Except String (ReplayBuffer Data Rep Regs × ReplayHistory Data)
  | addInstruction newInstr => do
      let (b, r) ← s.1.addInstruction newInstr
      .ok (b, { s.2 with
        live := s.2.live ++ [r]
        added := s.2.added ++ [newInstr]
        serial := Function.update s.2.serial r s.2.added.length })
  | addArtificialPlaceHolder realInstr =>
      let (b, r) := s.1.addArtificialPlaceHolder realInstr
      .ok (b, { s.2 with live := before realInstr s.2.live ++ r :: fromOn realInstr s.2.live })
  | deleteInstruction r => do
      let b ← s.1.deleteInstruction r
      .ok (b, { s.2 with
        live := before r s.2.live ++ (fromOn r s.2.live).tail
        gone := (s.1.reals [r]).map s.2.serial ++ s.2.gone })
  | getNextFetchHandle => .ok (s.1.getNextFetchHandle.1, s.2)
  | getNextRealFetchHandle => do
      let (b, _) ← s.1.getNextRealFetchHandle
      .ok (b, s.2)
  | setNextFetch r => .ok ((s.1.setNextFetch (some r)).1, s.2)
  | commitInstruction r => do
      let (b, _, _) ← s.1.commitInstruction r
      .ok (b, { s.2 with
        live := (fromOn r s.2.live).tail
        gone := (s.1.reals (before r s.2.live ++ [r])).map s.2.serial ++ s.2.gone })
  | setImplicitCommit r v => .ok (s.1.setImplicitCommit r v, s.2)
  | pushRegisterValues rv => .ok (s.1.pushRegisterValues rv, s.2)

end ReplayOp

/-! ### The invariant -/

namespace ReplayBuffer

/-- The serial numbers of the cells that hold an instruction. -/
def serials (l : ReplayList Data) (g : ReplayHistory Data) (rs : List Ref) : List Nat :=
  (rs.filter fun r => !(l.entry r).artificialInstr).map g.serial

/-- The list is well formed, and holds what the history says is left. -/
structure Tracks (b : ReplayBuffer Data Rep Regs) (g : ReplayHistory Data) : Prop where
  wf : ∃ free, b.list.WF g.live free
  left : serials b.list g g.live = (List.range g.added.length).filter (· ∉ g.gone)
  gone : ∀ n ∈ g.gone, n < g.added.length
  holds : ∀ r ∈ g.live, (b.list.entry r).artificialInstr = false →
    g.added[g.serial r]? = some (b.list.entry r).softsdvInstr

variable {b b' : ReplayBuffer Data Rep Regs} {g : ReplayHistory Data} {xs ys : List Ref} {r : Ref}

theorem serials_append (l : ReplayList Data) :
    serials l g (xs ++ ys) = serials l g xs ++ serials l g ys := by
  unfold serials
  rw [List.filter_append, List.map_append]

theorem serials_congr {l l' : ReplayList Data} {k : ReplayHistory Data} {rs : List Ref}
    (hent : ∀ r ∈ rs, (l'.entry r).artificialInstr = (l.entry r).artificialInstr)
    (hser : ∀ r ∈ rs, k.serial r = g.serial r) : serials l' k rs = serials l g rs := by
  unfold serials
  rw [List.filter_congr (q := fun r => !(l.entry r).artificialInstr)
    (fun r hr => by rw [hent r hr])]
  exact List.map_congr_left fun r hr => hser r (List.mem_filter.mp hr).1

theorem Tracks.serials_lt (h : Tracks b g) : ∀ n ∈ serials b.list g g.live, n < g.added.length := by
  intro n hn
  rw [h.left] at hn
  exact List.mem_range.mp (List.mem_filter.mp hn).1

/-- Taking a middle part out of a list without repetitions. -/
theorem filter_notMem_middle {xs ms ys : List Nat} (hnd : (xs ++ ms ++ ys).Nodup) :
    (xs ++ ms ++ ys).filter (· ∉ ms) = xs ++ ys := by
  have hx : xs.filter (· ∉ ms) = xs := List.filter_eq_self.mpr fun a ha => by
    simpa using not_mem_right (List.nodup_append.mp hnd).1 a ha
  have hm : ms.filter (· ∉ ms) = [] := List.filter_eq_nil_iff.mpr fun a ha => by simpa using ha
  have hy : ys.filter (· ∉ ms) = ys := List.filter_eq_self.mpr fun a ha => by
    have := not_mem_left hnd a ha
    simp only [List.mem_append, not_or] at this
    simpa using this.2
  rw [List.filter_append, List.filter_append, hx, hm, hy, List.append_nil]

/-- The cursor moved, or something outside the list changed. -/
theorem Tracks.congr (h : Tracks b g) (hwf : ∃ free, b'.list.WF g.live free)
    (hart : ∀ r ∈ g.live,
      (b'.list.entry r).artificialInstr = (b.list.entry r).artificialInstr)
    (hinstr : ∀ r ∈ g.live, (b'.list.entry r).softsdvInstr = (b.list.entry r).softsdvInstr) :
    Tracks b' g where
  wf := hwf
  left := (serials_congr hart fun _ _ => rfl).trans h.left
  gone := h.gone
  holds := by
    intro r hr ha
    rw [hart r hr] at ha
    rw [hinstr r hr]
    exact h.holds r hr ha

/-- Cells `ms` have left the middle of the list. -/
theorem Tracks.retire (xs ms : List Ref) {g' : ReplayHistory Data} (h : Tracks b g)
    (hlive : g.live = xs ++ ms ++ ys) (hlive' : g'.live = xs ++ ys) (hadded : g'.added = g.added)
    (hserial : g'.serial = g.serial) (hgone : g'.gone = serials b.list g ms ++ g.gone)
    (hwf : ∃ free, b'.list.WF g'.live free)
    (hart : ∀ r ∈ xs ++ ys,
      (b'.list.entry r).artificialInstr = (b.list.entry r).artificialInstr)
    (hinstr : ∀ r ∈ xs ++ ys, (b'.list.entry r).softsdvInstr = (b.list.entry r).softsdvInstr) :
    Tracks b' g' := by
  have hparts : serials b.list g g.live =
      serials b.list g xs ++ serials b.list g ms ++ serials b.list g ys := by
    rw [hlive, serials_append, serials_append]
  have hmem : ∀ r ∈ xs ++ ys, r ∈ g.live := by
    intro r hr
    rw [hlive]
    simp only [List.mem_append] at hr ⊢
    tauto
  exact
    { wf := hwf
      left := by
        have hnd : (serials b.list g g.live).Nodup := by
          rw [h.left]
          exact List.nodup_range.filter _
        rw [hparts] at hnd
        rw [hlive', serials_congr hart fun r _ => congrFun hserial r, serials_append,
          ← filter_notMem_middle hnd, ← hparts, h.left, List.filter_filter, hadded, hgone]
        refine List.filter_congr fun n _ => ?_
        simp [List.mem_append, not_or]
      gone := by
        intro n hn
        rw [hgone, List.mem_append] at hn
        rw [hadded]
        rcases hn with hn | hn
        · refine h.serials_lt n ?_
          rw [hparts]
          exact List.mem_append_left _ (List.mem_append_right _ hn)
        · exact h.gone n hn
      holds := by
        intro r hr ha
        rw [hlive'] at hr
        rw [hart r hr] at ha
        rw [hinstr r hr, hadded, hserial]
        exact h.holds r (hmem r hr) ha }

/-! ### Each operation keeps it -/

theorem Tracks.add {newInstr : SdvInstr Data} {uid : UInt64} (h : Tracks b g)
    (hwf : ∃ free, b'.list.WF (g.live ++ [r]) free)
    (hadd : Added b.list b'.list g.live r ⟨newInstr, uid, false, false⟩) :
    Tracks b' { g with
      live := g.live ++ [r]
      added := g.added ++ [newInstr]
      serial := Function.update g.serial r g.added.length } := by
  have hser : ∀ s ∈ g.live, Function.update g.serial r g.added.length s = g.serial s := by
    intro s hs
    have hne : s ≠ r := fun e => hadd.notMem (e ▸ hs)
    exact Function.update_of_ne hne ..
  have hlen : (g.added ++ [newInstr]).length = g.added.length + 1 := by simp
  exact
    { wf := hwf
      left := by
        have hold : serials b'.list
            { g with serial := Function.update g.serial r g.added.length } g.live =
              serials b.list g g.live :=
          serials_congr (fun s hs => by rw [hadd.entry s hs]) hser
        have hnew : serials b'.list
            { g with serial := Function.update g.serial r g.added.length } [r] =
              [g.added.length] := by
          simp [serials, hadd.new]
        have hfresh : g.added.length ∉ g.gone := fun hmem =>
          Nat.lt_irrefl _ (h.gone _ hmem)
        show serials b'.list { g with serial := Function.update g.serial r g.added.length }
          (g.live ++ [r]) = _
        rw [serials_append, hold, hnew, h.left, hlen, List.range_succ, List.filter_append]
        congr 1
        exact (List.filter_eq_self.mpr (by simpa using hfresh)).symm
      gone := by
        intro n hn
        rw [hlen]
        exact Nat.lt_succ_of_lt (h.gone n hn)
      holds := by
        intro s hs ha
        show (g.added ++ [newInstr])[Function.update g.serial r g.added.length s]? = _
        rcases List.mem_append.mp hs with hs | hs
        · rw [hadd.entry s hs] at ha ⊢
          have hget := h.holds s hs ha
          rw [hser s hs, List.getElem?_append_left (List.getElem?_eq_some_iff.mp hget).1]
          exact hget
        · have hsr := List.mem_singleton.mp hs
          subst hsr
          rw [Function.update_self, hadd.new]
          simp }

theorem Tracks.place {instr : SdvInstr Data} {uid : UInt64} {realInstr : Ref} (h : Tracks b g)
    (hlive : g.live = xs ++ realInstr :: ys)
    (hwf : ∃ free, b'.list.WF (xs ++ r :: realInstr :: ys) free)
    (hadd : Added b.list b'.list g.live r ⟨instr, uid, true, true⟩) :
    Tracks b' { g with live := xs ++ r :: realInstr :: ys } := by
  have hsplit : ∀ s ∈ xs ++ r :: realInstr :: ys, s = r ∨ s ∈ g.live := by
    intro s hs
    rw [hlive]
    simp only [List.mem_append, List.mem_cons] at hs ⊢
    tauto
  exact
    { wf := hwf
      left := by
        have hold : serials b'.list g g.live = serials b.list g g.live :=
          serials_congr (fun s hs => by rw [hadd.entry s hs]) (fun _ _ => rfl)
        have hnew : serials b'.list g [r] = [] := by simp [serials, hadd.new]
        show serials b'.list g (xs ++ ([r] ++ realInstr :: ys)) = _
        rw [serials_append, serials_append, hnew, List.nil_append, ← serials_append, ← hlive,
          hold, h.left]
      gone := h.gone
      holds := by
        intro s hs ha
        rcases hsplit s hs with rfl | hs
        · rw [hadd.new] at ha
          cases ha
        · rw [hadd.entry s hs] at ha ⊢
          exact h.holds s hs ha }

theorem moveUid_artificialInstr (entry : Ref → Entry Data) (r : Ref) (p : Option Ref) (s : Ref) :
    (moveUid entry r p s).artificialInstr = (entry s).artificialInstr := by
  cases p with
  | none => rfl
  | some p =>
      by_cases hs : s = p
      · rw [moveUid, hs, Function.update_self]
      · rw [moveUid, Function.update_of_ne hs]

theorem moveUid_softsdvInstr (entry : Ref → Entry Data) (r : Ref) (p : Option Ref) (s : Ref) :
    (moveUid entry r p s).softsdvInstr = (entry s).softsdvInstr := by
  cases p with
  | none => rfl
  | some p =>
      by_cases hs : s = p
      · rw [moveUid, hs, Function.update_self]
      · rw [moveUid, Function.update_of_ne hs]

/-- A live cell cuts the list in two. -/
theorem cut {free : List Ref} (hwf : b.list.WF g.live free) (hr : r ∈ g.live) :
    ∃ xs ys, g.live = xs ++ r :: ys ∧ before r g.live = xs ∧ fromOn r g.live = r :: ys := by
  obtain ⟨xs, ys, hlive⟩ := List.append_of_mem hr
  have hnd := (List.nodup_append.mp hwf.nodup).1
  rw [hlive] at hnd
  have hrx : r ∉ xs := not_mem_left hnd r List.mem_cons_self
  exact ⟨xs, ys, hlive, by rw [hlive, before_append hrx], by rw [hlive, fromOn_append hrx]⟩

theorem mem_of_fetched (hr : r ∈ b.fetched g.live) : r ∈ g.live := by
  unfold fetched at hr
  split at hr
  · exact hr
  · exact (List.takeWhile_sublist _).mem hr

/-- The cursor is behind a fetched cell. -/
theorem cursor_behind {free : List Ref} (hwf : b.list.WF g.live free)
    (hlive : g.live = xs ++ r :: ys) (hr : r ∈ b.fetched g.live) :
    ∀ c, b.list.nextFetch = some c → c ∈ ys := by
  intro c hc
  have hnd := (List.nodup_append.mp hwf.nodup).1
  obtain ⟨us, vs, hcut, hbefore, -⟩ := cut hwf (hwf.cursor c hc)
  have hr' : r ∈ us := by
    unfold fetched at hr
    rw [show b.nextFetch = some c from hc] at hr
    rw [← hbefore]
    exact hr
  -- `r` is in the part in front of `c`, so `c` is in the part behind `r`.
  obtain ⟨us₁, us₂, rfl⟩ := List.append_of_mem hr'
  have hys : ys = us₂ ++ c :: vs := by
    have hr₁ : r ∉ xs := by
      rw [hlive] at hnd
      exact not_mem_left hnd r List.mem_cons_self
    have hr₂ : r ∉ us₁ := by
      rw [hcut, List.append_assoc] at hnd
      exact not_mem_left hnd r (by simp)
    have hfrom : fromOn r g.live = r :: (us₂ ++ c :: vs) := by
      rw [hcut, List.append_assoc, List.cons_append, fromOn_append hr₂]
    rw [hlive, fromOn_append hr₁] at hfrom
    exact (List.cons.inj hfrom).2
  rw [hys]
  simp

end ReplayBuffer

/-! ### What a call does -/

open ReplayBuffer in
/-- What a call that fails no assertion makes of the history, the entries and the uid counter. -/
inductive ReplayEffect (s t : ReplayBuffer Data Rep Regs × ReplayHistory Data) :
    ReplayOp Data Regs → Prop
  | add {newInstr : SdvInstr Data} {r : Ref}
      (history : t.2 = { s.2 with
        live := s.2.live ++ [r]
        added := s.2.added ++ [newInstr]
        serial := Function.update s.2.serial r s.2.added.length })
      (added : Added s.1.list t.1.list s.2.live r ⟨newInstr, s.1.list.uid + 1, false, false⟩) :
      ReplayEffect s t (.addInstruction newInstr)
  | place {instr : SdvInstr Data} {xs ys : List Ref} {r realInstr : Ref}
      (live : s.2.live = xs ++ realInstr :: ys)
      (history : t.2 = { s.2 with live := xs ++ r :: realInstr :: ys })
      (added : Added s.1.list t.1.list s.2.live r ⟨instr, s.1.list.uid + 1, true, true⟩) :
      ReplayEffect s t (.addArtificialPlaceHolder realInstr)
  | delete {xs ys : List Ref} {r : Ref} (live : s.2.live = xs ++ r :: ys)
      (history : t.2 = { s.2 with
        live := xs ++ ys
        gone := serials s.1.list s.2 [r] ++ s.2.gone })
      (entry : t.1.list.entry = moveUid s.1.list.entry r xs.getLast?)
      (uid : t.1.list.uid = s.1.list.uid) : ReplayEffect s t (.deleteInstruction r)
  | commit {xs ys : List Ref} {r : Ref} (live : s.2.live = xs ++ r :: ys)
      (history : t.2 = { s.2 with
        live := ys
        gone := serials s.1.list s.2 (xs ++ [r]) ++ s.2.gone })
      (kept : Kept s.1.list t.1.list) : ReplayEffect s t (.commitInstruction r)
  | keep {op : ReplayOp Data Regs} (moves : ∀ r, op ≠ .addArtificialPlaceHolder r)
      (history : t.2 = s.2)
      (entry : ∀ r, ∃ v, t.1.list.entry r = { s.1.list.entry r with implicitCommit := v })
      (uid : t.1.list.uid = s.1.list.uid) : ReplayEffect s t op

open ReplayBuffer in
/-- An allowed call keeps the list well formed, or finds the register values missing. -/
theorem replay_exec_spec {s : ReplayBuffer Data Rep Regs × ReplayHistory Data}
    {op : ReplayOp Data Regs} {free : List Ref} (hwf : s.1.list.WF s.2.live free)
    (hop : op.Allowed s) :
    (∃ t, op.exec s = .ok t ∧ (∃ free', t.1.list.WF t.2.live free') ∧ ReplayEffect s t op) ∨
      op.exec s = .error registersOutOfOrder := by
  obtain ⟨b, g⟩ := s
  simp only at hwf
  have hsame : ∀ r, ∃ v, b.list.entry r = { b.list.entry r with implicitCommit := v } :=
    fun r => ⟨(b.list.entry r).implicitCommit, rfl⟩
  cases op with
  | addInstruction newInstr =>
      rcases addInstruction_spec hwf newInstr with ⟨b', r, free', hb', hwf', hadd⟩ | herr
      · exact Or.inl ⟨_, by rw [ReplayOp.exec, hb']; rfl, ⟨free', hwf'⟩, .add rfl hadd⟩
      · exact Or.inr (by rw [ReplayOp.exec, herr]; rfl)
  | addArtificialPlaceHolder realInstr =>
      obtain ⟨xs, ys, hlive, hbefore, hfrom⟩ := cut hwf hop
      have hwf₁ := hwf
      rw [hlive] at hwf₁
      obtain ⟨b', r, free', hb', hwf', hadd⟩ := addArtificialPlaceHolder_spec hwf₁
      rw [← hlive] at hadd
      have hexec : (ReplayOp.addArtificialPlaceHolder realInstr : ReplayOp Data Regs).exec (b, g) =
          .ok (b', { g with live := xs ++ r :: realInstr :: ys }) := by
        rw [ReplayOp.exec, hb', hbefore, hfrom]
      exact Or.inl ⟨_, hexec, ⟨free', hwf'⟩, .place hlive rfl hadd⟩
  | deleteInstruction r =>
      obtain ⟨xs, ys, hlive, hbefore, hfrom⟩ := cut hwf hop
      have hwf₁ := hwf
      rw [hlive] at hwf₁
      obtain ⟨b', hb', hwf', hentry, huid, -⟩ := deleteInstruction_spec hwf₁
      have hexec : (ReplayOp.deleteInstruction r : ReplayOp Data Regs).exec (b, g) =
          .ok (b', { g with live := xs ++ ys, gone := serials b.list g [r] ++ g.gone }) := by
        rw [ReplayOp.exec, hb', hbefore, hfrom]
        rfl
      exact Or.inl ⟨_, hexec, ⟨_, hwf'⟩, .delete hlive rfl hentry huid⟩
  | getNextFetchHandle =>
      obtain ⟨c, hb', hwf'⟩ := getNextFetchHandle_spec hwf
      rw [hb'] at hwf'
      exact Or.inl ⟨({ b with nextFetch := c }, g), by rw [ReplayOp.exec, hb'], ⟨free, hwf'⟩,
        .keep nofun rfl hsame rfl⟩
  | getNextRealFetchHandle =>
      obtain ⟨b', f, c, hb', rfl, hwf'⟩ := getNextRealFetchHandle_spec hwf
      exact Or.inl ⟨({ b with nextFetch := c }, g), by rw [ReplayOp.exec, hb']; rfl, ⟨free, hwf'⟩,
        .keep nofun rfl hsame rfl⟩
  | setNextFetch r =>
      have hr : ∀ s, some r = some s → s ∈ g.live := by
        intro s hs
        cases hs
        exact hop
      exact Or.inl ⟨_, rfl, ⟨free, wf_nextFetch hwf hr⟩, .keep nofun rfl hsame rfl⟩
  | commitInstruction r =>
      obtain ⟨hfetched, himp⟩ := hop
      obtain ⟨xs, ys, hlive, hbefore, hfrom⟩ := cut hwf (mem_of_fetched hfetched)
      have hcur := cursor_behind hwf hlive hfetched
      have hwf₁ := hwf
      rw [hlive] at hwf₁
      rw [hbefore] at himp
      obtain ⟨b', num, tag, hb', hwf', hkept⟩ := commitInstruction_spec hwf₁ himp hcur
      have hexec : (ReplayOp.commitInstruction r : ReplayOp Data Regs).exec (b, g) =
          .ok (b', { g with live := ys, gone := serials b.list g (xs ++ [r]) ++ g.gone }) := by
        rw [ReplayOp.exec, hb', hbefore, hfrom]
        rfl
      exact Or.inl ⟨_, hexec, ⟨_, hwf'⟩, .commit hlive rfl hkept⟩
  | setImplicitCommit r v =>
      refine Or.inl ⟨_, rfl, ⟨free, setImplicitCommit_spec hwf v⟩, .keep nofun rfl ?_ ?_⟩
      · exact fun a => setImplicitCommit_entry r a v
      · rw [list_setImplicitCommit]
  | pushRegisterValues rv =>
      have hlist := list_pushRegisterValues b rv
      refine Or.inl ⟨_, rfl, ⟨free, ?_⟩, .keep nofun rfl ?_ ?_⟩
      all_goals simp only [hlist]
      · exact hwf
      · exact hsame

open ReplayBuffer in
theorem ReplayEffect.tracks {s t : ReplayBuffer Data Rep Regs × ReplayHistory Data}
    {op : ReplayOp Data Regs} (h : ReplayEffect s t op) (hs : Tracks s.1 s.2)
    (hwf : ∃ free, t.1.list.WF t.2.live free) : Tracks t.1 t.2 := by
  cases h with
  | add history added =>
      rw [history] at hwf ⊢
      exact hs.add hwf added
  | place live history added =>
      rw [history] at hwf ⊢
      exact hs.place live hwf added
  | delete live history entry uid =>
      rw [history] at hwf ⊢
      refine hs.retire _ [_] (by simpa using live) rfl rfl rfl rfl hwf ?_ ?_
      · intro r _
        rw [entry, moveUid_artificialInstr]
      · intro r _
        rw [entry, moveUid_softsdvInstr]
  | commit live history kept =>
      rw [history] at hwf ⊢
      refine hs.retire [] _ (by simpa using live) rfl rfl rfl rfl hwf ?_ ?_
      all_goals
        intro r _
        rw [kept.entry]
  | keep moves history entry uid =>
      rw [history] at hwf ⊢
      refine hs.congr hwf ?_ ?_
      all_goals
        intro r _
        obtain ⟨v, hv⟩ := entry r
        rw [hv]

/-! ### Runs -/

/-- The buffer after its constructor, with no history. -/
def ReplayStart (s : ReplayBuffer Data Rep Regs × ReplayHistory Data) : Prop :=
  ∃ cell regCell serial, s = (ReplayBuffer.empty cell regCell, ⟨[], [], serial, []⟩)

/-- One call that fails no assertion. -/
def ReplayStep (s t : ReplayBuffer Data Rep Regs × ReplayHistory Data) : Prop :=
  ∃ op : ReplayOp Data Regs, op.Allowed s ∧ op.exec s = .ok t

theorem tracks_of_replayStart {s : ReplayBuffer Data Rep Regs × ReplayHistory Data}
    (h : ReplayStart s) : s.1.Tracks s.2 := by
  obtain ⟨cell, regCell, serial, rfl⟩ := h
  exact
    { wf := ⟨[], trivial, rfl, rfl, rfl, List.nodup_nil, fun _ hr => absurd hr List.not_mem_nil,
        fun _ hr => by cases hr⟩
      left := rfl
      gone := fun _ hn => absurd hn List.not_mem_nil
      holds := fun _ hr => absurd hr List.not_mem_nil }

theorem ReplayEffect.of_exec {s t : ReplayBuffer Data Rep Regs × ReplayHistory Data}
    {op : ReplayOp Data Regs} (hwf : ∃ free, s.1.list.WF s.2.live free) (hop : op.Allowed s)
    (hexec : op.exec s = .ok t) :
    (∃ free, t.1.list.WF t.2.live free) ∧ ReplayEffect s t op := by
  obtain ⟨free, hwf⟩ := hwf
  rcases replay_exec_spec hwf hop with ⟨t', ht', hwf', heffect⟩ | herr
  · rw [ht'] at hexec
    cases hexec
    exact ⟨hwf', heffect⟩
  · rw [herr] at hexec
    cases hexec

theorem tracks_of_replayReaches {s : ReplayBuffer Data Rep Regs × ReplayHistory Data}
    (h : Reaches ReplayStart ReplayStep s) : s.1.Tracks s.2 := by
  refine h.invariant (P := fun s => s.1.Tracks s.2) (fun _ hs => tracks_of_replayStart hs) ?_
  rintro s t hs ⟨op, hop, hexec⟩
  obtain ⟨hwf, heffect⟩ := ReplayEffect.of_exec hs.wf hop hexec
  exact heffect.tracks hs hwf

/--
**The replay buffer keeps a well-formed list.**

In every state a run reaches, following `next` from the head passes the live cells, each
once, and ends at the tail; `prev` is the inverse of `next`; the cursor is null or live;
no live cell is on the free list; and the live cells that are not place holders hold, in
order, the added instructions that were neither committed nor deleted.  No allowed call
fails there, except an `AddInstruction` whose register values are not there.
-/
theorem replayBuffer_wellFormed {s : ReplayBuffer Data Rep Regs × ReplayHistory Data}
    (h : Reaches ReplayStart ReplayStep s) :
    Chain (fun r => (s.1.cell r).next) s.1.head s.2.live ∧ s.2.live.Nodup ∧
    s.1.tail = s.2.live.getLast? ∧
    (∀ r ∈ s.2.live, ∀ t ∈ s.2.live, (s.1.cell r).next = some t ↔ (s.1.cell t).prev = some r) ∧
    (∀ r, s.1.head = some r → (s.1.cell r).prev = none) ∧
    (s.1.head = none ↔ s.1.tail = none) ∧
    (∀ c, s.1.nextFetch = some c → c ∈ s.2.live) ∧
    (∃ free, Chain (fun r => (s.1.cell r).next) s.1.freeList free ∧ ∀ r ∈ s.2.live, r ∉ free) ∧
    (s.1.reals s.2.live).map s.2.serial =
      (List.range s.2.added.length).filter (· ∉ s.2.gone) ∧
    (∀ r ∈ s.1.reals s.2.live, s.2.added[s.2.serial r]? = some (s.1.cell r).softsdvInstr) ∧
    ∀ op : ReplayOp Data Regs, op.Allowed s →
      (∃ t, op.exec s = .ok t) ∨ op.exec s = .error "Register values arrived out of order." := by
  have ht := tracks_of_replayReaches h
  obtain ⟨free, hwf⟩ := ht.wf
  have hnd := List.nodup_append.mp hwf.nodup
  have hhead : s.1.head = s.2.live.head? := hwf.head
  have htail : s.1.tail = s.2.live.getLast? := hwf.tail
  refine ⟨?_, hnd.1, htail, ?_, ?_, ?_, hwf.cursor, ?_, ht.left, ?_, ?_⟩
  · rw [hhead]
    exact hwf.seg.chain
  · intro r hr t ht
    exact hwf.seg.next_eq_iff hnd.1 hr ht
  · intro r hr
    rw [hhead] at hr
    obtain ⟨ys, hlive⟩ := List.head?_eq_some_iff.mp hr
    rw [hlive] at hwf
    have hcut : s.1.list.WF ([] ++ r :: ys) free := hwf
    exact hcut.prev_at
  · rw [hhead, htail, List.head?_eq_none_iff, List.getLast?_eq_none_iff]
  · exact ⟨free, hwf.freed, fun r hr => not_mem_right hwf.nodup r hr⟩
  · intro r hr
    obtain ⟨hlive, hreal⟩ := List.mem_filter.mp hr
    have hart : (s.1.cell r).artificialInstr = false := by simpa using hreal
    exact ht.holds r hlive hart
  · intro op hop
    rcases replay_exec_spec hwf hop with ⟨t, ht', -⟩ | herr
    · exact Or.inl ⟨t, ht'⟩
    · exact Or.inr herr

/-- A buffer in memory that was zero. -/
def zeroReplayBuffer : ReplayBuffer Nat Unit Unit :=
  .empty (fun _ => ⟨⟨⟨0, none, 0⟩, 0, false, false⟩, none, none, none, none⟩) fun _ => ⟨0, ()⟩

theorem reaches_zero : Reaches ReplayStart ReplayStep
    (zeroReplayBuffer, (⟨[], [], fun _ => 0, []⟩ : ReplayHistory Nat)) :=
  .start ⟨_, _, _, rfl⟩

/-- Two instructions are added and fetched, and the first one commits. -/
theorem replayBuffer_wellFormed_two :
    ∃ s : ReplayBuffer Nat Unit Unit × ReplayHistory Nat, s.2.gone = [0] ∧ s.2.live = [1] ∧
      (s.1.reals s.2.live).map s.2.serial = [1] := by
  have hadd := reaches_zero.step ⟨.addInstruction ⟨0, none, 7⟩, trivial, rfl⟩
  have hadd₂ := hadd.step ⟨.addInstruction ⟨0, none, 8⟩, trivial, rfl⟩
  have hfetch := hadd₂.step ⟨.getNextFetchHandle, trivial, rfl⟩
  have hfetch₂ := hfetch.step ⟨.getNextRealFetchHandle, trivial, rfl⟩
  have hcommit := hfetch₂.step ⟨.commitInstruction 0, ⟨by decide, by decide⟩, rfl⟩
  exact ⟨_, rfl, rfl, (replayBuffer_wellFormed hcommit).2.2.2.2.2.2.2.2.1⟩

end AsimFeeder.SoftSDV
