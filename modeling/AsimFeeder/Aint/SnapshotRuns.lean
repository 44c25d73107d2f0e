/-
No snapshot restores a process.

`restore_process` sets `num_pages` to what it was, and then looks up every page to read it
in.  Every lookup of a page that is not there counts it once more, and none is there.  So a
process that was restored has counted its pages twice, and the next snapshot sorts and
writes descriptors that nothing was put in.
-/
import AsimFeeder.Aint.Snapshot
import AsimFeeder.Aint.SharedSegments

namespace AsimFeeder.Aint.Snapshot

open Lib

namespace ProcessState

variable {p q r : ProcessState} {decoded : ProcessState → UInt64 → Decoded} {addr : UInt64}

/-! ### The entries of the translation buffer -/

def entryCount (TB : Nat → Chain Int Mapping) : Nat :=
  ∑ tbn ∈ Finset.range TB_SIZE, (TB tbn).length

theorem length_entries (p : ProcessState) : p.entries.length = entryCount p.process.TB := by
  unfold entries entryCount
  rw [List.length_flatMap]
  simp only [List.length_map]
  rfl

theorem entryCount_update (TB : Nat → Chain Int Mapping) {tbkey : Nat} (h : tbkey < TB_SIZE)
    (chain : Chain Int Mapping) :
    entryCount (Function.update TB tbkey chain) + (TB tbkey).length
      = entryCount TB + chain.length := by
  have hmem : tbkey ∈ Finset.range TB_SIZE := Finset.mem_range.mpr h
  unfold entryCount
  rw [← Finset.add_sum_erase _ _ hmem, ← Finset.add_sum_erase _ (fun tbn => (TB tbn).length) hmem]
  have hrest : ∑ tbn ∈ (Finset.range TB_SIZE).erase tbkey,
    (Function.update TB tbkey chain tbn).length
      = ∑ tbn ∈ (Finset.range TB_SIZE).erase tbkey, (TB tbn).length := by
    refine Finset.sum_congr rfl fun tbn htbn => ?_
    rw [Function.update_of_ne (Finset.ne_of_mem_erase htbn)]
  rw [hrest, Function.update_self]
  omega

theorem TB_KEY_lt (vpage : Int) : TB_KEY vpage < TB_SIZE := by
  unfold TB_KEY TB_SIZE
  omega

/-! ### Every new entry is counted -/

/-- As many pages are counted as entries are made, and no entry goes. -/
structure Grows (p q : ProcessState) : Prop where
  counted : q.num_pages + p.entries.length = p.num_pages + q.entries.length
  le : p.entries.length ≤ q.entries.length

theorem Grows.refl (p : ProcessState) : Grows p p := ⟨rfl, Nat.le_refl _⟩

theorem Grows.trans (h : Grows p q) (h' : Grows q r) : Grows p r := by
  have hcounted := h.counted
  have hcounted' := h'.counted
  exact ⟨by omega, Nat.le_trans h.le h'.le⟩

theorem Grows.ne_nil (h : Grows p q) (hp : p.entries ≠ []) : q.entries ≠ [] := by
  have hpos := List.length_pos_iff.mpr hp
  exact List.ne_nil_of_length_pos (Nat.lt_of_lt_of_le hpos h.le)

/-- What is not in the translation buffer, and not a count of it, does not matter. -/
theorem Grows.of_same (hTB : q.process.TB = p.process.TB) (hpages : q.num_pages = p.num_pages) :
    Grows p q := by
  have hlength : q.entries.length = p.entries.length := by
    rw [length_entries, length_entries, hTB]
  exact ⟨by rw [hlength, hpages], Nat.le_of_eq hlength.symm⟩

/-- **A lookup counts the entry that it makes.** -/
theorem tlb_lookup_grows {pg : Option Mapping} (h : p.tlb_lookup addr = some (pg, q)) :
    Grows p q ∧ q.threads = p.threads ∧
      (pg.isSome ∨ (p.process.process_find_segment addr).isSome → q.entries ≠ []) := by
  have hkey := TB_KEY_lt (TB_VPAGE addr)
  have hpos : ∀ q : ProcessState, 0 < q.entries.length → q.entries ≠ [] :=
    fun _ hlength => List.ne_nil_of_length_pos hlength
  unfold tlb_lookup misses Process.tlb_lookup at h
  dsimp only at h
  cases hlook : (p.process.TB (TB_KEY (TB_VPAGE addr))).look (TB_TAG (TB_VPAGE addr)) with
  | broken =>
      rw [hlook] at h
      cases h
  | hit cell chain =>
      obtain ⟨hlength, hne⟩ := Chain.length_look hlook
      rw [hlook] at h
      cases h
      have hcount := entryCount_update p.process.TB hkey chain
      have hentries : entryCount (Function.update p.process.TB (TB_KEY (TB_VPAGE addr)) chain)
          = entryCount p.process.TB := by
        omega
      have hchain : (p.process.TB (TB_KEY (TB_VPAGE addr))).length ≤ entryCount p.process.TB :=
        Finset.single_le_sum (f := fun tbn => (p.process.TB tbn).length)
          (fun _ _ => Nat.zero_le _) (Finset.mem_range.mpr hkey)
      have hnonempty := List.length_pos_iff.mpr hne
      refine ⟨⟨?_, ?_⟩, rfl, fun _ => hpos _ ?_⟩
      · rw [length_entries, length_entries, hentries]
      · rw [length_entries, length_entries, hentries]
      · rw [length_entries, hentries]
        omega
  | miss =>
      rw [hlook] at h
      unfold Process.tlb_miss at h
      cases hsegment : p.process.process_find_segment addr with
      | none =>
          rw [hsegment] at h
          cases h
          refine ⟨.refl p, rfl, ?_⟩
          rintro (hpg | hfound)
          · cases hpg
          · cases hfound
      | some segment =>
          rw [hsegment] at h
          dsimp only at h
          generalize hpg' : p.process.newMapping noShmseg addr segment p.aint_brk_address
            = made at h
          -- whatever the lookup returns, the entry is there
          have hmade : q.process.TB = Function.update p.process.TB (TB_KEY (TB_VPAGE addr))
                ((p.process.TB (TB_KEY (TB_VPAGE addr))).push (TB_TAG (TB_VPAGE addr)) made) ∧
              q.num_pages = p.num_pages + 1 ∧ q.threads = p.threads := by
            revert h
            generalize made.page + TB_OFFSET addr = phys
            cases phys with
            | zero =>
                dsimp only
                rw [if_pos Option.isSome_some]
                split
                · intro h
                  cases h
                · intro h
                  cases h
                  exact ⟨rfl, rfl, rfl⟩
            | succ phys =>
                dsimp only
                rw [Function.update_self, Chain.remembered_push]
                dsimp only
                rw [if_pos rfl]
                dsimp only
                rw [if_pos Option.isSome_some]
                split
                · intro h
                  cases h
                · intro h
                  cases h
                  exact ⟨rfl, rfl, rfl⟩
          obtain ⟨hTB, hpages, hthreads⟩ := hmade
          have hcount := entryCount_update p.process.TB hkey
            ((p.process.TB (TB_KEY (TB_VPAGE addr))).push (TB_TAG (TB_VPAGE addr)) made)
          have hpush : ((p.process.TB (TB_KEY (TB_VPAGE addr))).push
              (TB_TAG (TB_VPAGE addr)) made).length
                = (p.process.TB (TB_KEY (TB_VPAGE addr))).length + 1 := rfl
          have hlength : q.entries.length = p.entries.length + 1 := by
            rw [length_entries, length_entries, hTB]
            omega
          exact ⟨⟨by omega, by omega⟩, hthreads, fun _ => hpos _ (by omega)⟩

theorem addr2phys_grows {phys : Option Nat} (h : p.addr2phys addr = some (phys, q)) :
    Grows p q ∧ q.threads = p.threads ∧ (phys.isSome → q.entries ≠ []) := by
  obtain ⟨⟨pg, s⟩, hlookup, heq⟩ := Option.map_eq_some_iff.mp h
  obtain ⟨hgrows, hthreads, hne⟩ := tlb_lookup_grows hlookup
  cases heq
  refine ⟨hgrows, hthreads, fun hphys => hne (.inl ?_)⟩
  rwa [Option.isSome_map] at hphys

theorem addr2iphys_grows {found : Bool} (h : p.addr2iphys addr = some (found, q)) :
    Grows p q ∧ q.threads = p.threads ∧
      ((p.process.process_find_segment addr).isSome → q.entries ≠ []) := by
  obtain ⟨⟨pg, s⟩, hlookup, heq⟩ := Option.map_eq_some_iff.mp h
  obtain ⟨hgrows, hthreads, hne⟩ := tlb_lookup_grows hlookup
  cases pg with
  | none =>
      cases heq
      exact ⟨hgrows, hthreads, fun hsegment => hne (.inr hsegment)⟩
  | some pg =>
      cases heq
      have htext : Grows s { s with textpage := Function.update s.textpage pg.page true } :=
        .of_same rfl rfl
      exact ⟨hgrows.trans htext, hthreads, fun _ => htext.ne_nil (hne (.inl rfl))⟩

/-! ### Loops of lookups -/

/-- Entries are made, and threads are not. -/
structure Loads (p q : ProcessState) : Prop where
  grows : Grows p q
  threads : q.threads = p.threads

theorem Loads.refl (p : ProcessState) : Loads p p := ⟨.refl p, rfl⟩

theorem Loads.trans (h : Loads p q) (h' : Loads q r) : Loads p r :=
  ⟨h.grows.trans h'.grows, h'.threads.trans h.threads⟩

theorem foldlM_grows {α : Type} {step : ProcessState → α → Option ProcessState}
    (hstep : ∀ p a q, step p a = some q → Grows p q) {l : List α}
    (h : l.foldlM step p = some q) : Grows p q := by
  induction l generalizing p with
  | nil =>
      cases h
      exact .refl _
  | cons a l ih =>
      rw [List.foldlM_cons] at h
      obtain ⟨s, hs, h⟩ := Option.bind_eq_some_iff.mp h
      exact (hstep p a s hs).trans (ih h)

theorem foldlM_threads {α : Type} {step : ProcessState → α → Option ProcessState}
    (hstep : ∀ p a q, step p a = some q → q.threads = p.threads) {l : List α}
    (h : l.foldlM step p = some q) : q.threads = p.threads := by
  induction l generalizing p with
  | nil =>
      cases h
      rfl
  | cons a l ih =>
      rw [List.foldlM_cons] at h
      obtain ⟨s, hs, h⟩ := Option.bind_eq_some_iff.mp h
      exact (ih h).trans (hstep p a s hs)

theorem memcpy_loads {bytes : List UInt8} (h : memcpy_to_object_space addr bytes p = some q) :
    Loads p q := by
  induction bytes generalizing addr p with
  | nil =>
      cases h
      exact .refl _
  | cons byte bytes ih =>
      obtain ⟨⟨phys, s⟩, hphys, h⟩ := Option.bind_eq_some_iff.mp h
      obtain ⟨phys, rfl, h⟩ := Option.bind_eq_some_iff.mp h
      obtain ⟨hgrows, hthreads, -⟩ := addr2phys_grows hphys
      have hwrite : Loads s { s with memory := Function.update s.memory phys byte } :=
        ⟨.of_same rfl rfl, rfl⟩
      exact (Loads.mk hgrows hthreads).trans (hwrite.trans (ih h))

theorem targets_loads {targets : List UInt64}
    (h : targets.foldlM (fun (p : ProcessState) addr => (p.addr2iphys addr).map Prod.snd) p
      = some q) : Loads p q := by
  have hstep : ∀ (p : ProcessState) addr q, (p.addr2iphys addr).map Prod.snd = some q →
      Loads p q := by
    intro p addr q h
    obtain ⟨⟨found, s⟩, hlookup, rfl⟩ := Option.map_eq_some_iff.mp h
    obtain ⟨hgrows, hthreads, -⟩ := addr2iphys_grows hlookup
    exact ⟨hgrows, hthreads⟩
  exact ⟨foldlM_grows (fun p a q h => (hstep p a q h).grows) h,
    foldlM_threads (fun p a q h => (hstep p a q h).threads) h⟩

theorem decode_instr_loads (h : p.decode_instr decoded addr = some q) : Loads p q := by
  obtain ⟨s, hs, h⟩ := Option.bind_eq_some_iff.mp h
  refine (targets_loads hs).trans ?_
  split at h
  · cases h
    exact .refl _
  · exact memcpy_loads h

theorem decodeLoop_loads {n : Nat} (h : decodeLoop decoded n addr p = some q) : Loads p q := by
  induction n generalizing addr p with
  | zero =>
      cases h
      exact .refl _
  | succ n ih =>
      rw [decodeLoop] at h
      obtain ⟨⟨phys?, s⟩, hphys, h⟩ := Option.bind_eq_some_iff.mp h
      dsimp only at h
      obtain ⟨phys, -, h⟩ := Option.bind_eq_some_iff.mp h
      obtain ⟨⟨found, u⟩, hnext, h⟩ := Option.bind_eq_some_iff.mp h
      obtain ⟨v, hdecode, h⟩ := Option.bind_eq_some_iff.mp h
      obtain ⟨hgrows, hthreads, -⟩ := addr2phys_grows hphys
      obtain ⟨hgrows', hthreads', -⟩ := addr2iphys_grows hnext
      exact (Loads.mk hgrows hthreads).trans
        ((Loads.mk hgrows' hthreads').trans ((decode_instr_loads hdecode).trans (ih h)))

theorem decode_text_region_loads {n : Nat} (h : p.decode_text_region decoded addr n = some q) :
    Loads p q := by
  obtain ⟨⟨found, s⟩, hstart, h⟩ := Option.bind_eq_some_iff.mp h
  obtain ⟨hgrows, hthreads, -⟩ := addr2iphys_grows hstart
  have hcount : Loads s { s with n_instructions := s.n_instructions + n } :=
    ⟨.of_same rfl rfl, rfl⟩
  exact (Loads.mk hgrows hthreads).trans (hcount.trans (decodeLoop_loads h))

/-! ### Restoring counts every page again -/

theorem restore_page_loads {spd : PageRecord} (h : p.restore_page decoded spd = some q) :
    Loads p q ∧ q.entries ≠ [] := by
  obtain ⟨⟨phys, s⟩, hphys, h⟩ := Option.bind_eq_some_iff.mp h
  obtain ⟨phys, rfl, h⟩ := Option.bind_eq_some_iff.mp h
  obtain ⟨hgrows, hthreads, hne⟩ := addr2phys_grows hphys
  have hread : ∀ f, Loads s ((s.readPage phys spd.page).setProt spd.vpage f) :=
    fun f => ⟨.of_same rfl rfl, rfl⟩
  have hs : Loads s q := by
    dsimp only at h
    split at h
    · exact (hread _).trans (decode_text_region_loads h)
    · cases h
      exact hread _
  exact ⟨(Loads.mk hgrows hthreads).trans hs, hs.grows.ne_nil (hne rfl)⟩

theorem restore_pages_grows {pages : List PageRecord}
    (h : p.restore_pages decoded pages = some q) :
    Grows p q ∧ q.threads = p.threads ∧ (pages ≠ [] → q.entries ≠ []) := by
  refine ⟨foldlM_grows (fun p a q h => (restore_page_loads h).1.grows) h,
    foldlM_threads (fun p a q h => (restore_page_loads h).1.threads) h, fun hne => ?_⟩
  cases pages with
  | nil => exact absurd rfl hne
  | cons spd pages =>
      unfold restore_pages at h
      rw [List.foldlM_cons] at h
      obtain ⟨s, hs, h⟩ := Option.bind_eq_some_iff.mp h
      have hgrows := foldlM_grows (fun p a q h => (restore_page_loads h).1.grows) h
      exact hgrows.ne_nil (restore_page_loads hs).2

theorem restore_thread_grows {st : ThreadRecord} (h : p.restore_thread st = some q) :
    Grows p q ∧ ∃ next, q.threads = p.threads ++ [restored st next] := by
  unfold restore_thread at h
  split at h
  · obtain ⟨⟨found, s⟩, hlookup, rfl⟩ := Option.map_eq_some_iff.mp h
    obtain ⟨hgrows, hthreads, -⟩ := addr2iphys_grows hlookup
    refine ⟨hgrows.trans (.of_same rfl rfl), if found then some st.pc else none, ?_⟩
    dsimp only
    rw [hthreads]
  · cases h
    exact ⟨.of_same rfl rfl, none, rfl⟩

/-- **A process that was restored has every entry of its translation buffer counted on top of
what was counted when the snapshot was made.** -/
theorem restore_process_counts {file : SnapshotFile}
    (h : restore_process decoded file = some q) :
    q.num_pages = file.num_pages + q.entries.length ∧ (file.pages ≠ [] → q.entries ≠ []) := by
  obtain ⟨s, hpages, hthreads⟩ := Option.bind_eq_some_iff.mp h
  obtain ⟨hgrows, -, hne⟩ := restore_pages_grows hpages
  have hgrows' := foldlM_grows (fun p a q h => (restore_thread_grows h).1) hthreads
  have hempty : (restore_fields file).entries.length = 0 := by
    rw [length_entries]
    exact Finset.sum_eq_zero fun _ _ => rfl
  have hpages : (restore_fields file).num_pages = file.num_pages := rfl
  have hcounted := (hgrows.trans hgrows').counted
  exact ⟨by omega, fun hfile => hgrows'.ne_nil (hne hfile)⟩

/-! ### Runs -/

/-- Once the program is loaded, it has a page. -/
def Loaded (p : ProcessState) : Prop := p.threads ≠ [] → p.entries ≠ []

theorem Loads.loaded (h : Loads p q) (hp : p.Loaded) : q.Loaded := by
  intro hthreads
  rw [h.threads] at hthreads
  exact h.grows.ne_nil (hp hthreads)

theorem onThread_loaded {i : Nat} {f : Thread → Option Thread} (h : p.onThread i f = some q)
    (hp : p.Loaded) : q.Loaded := by
  obtain ⟨thread, -, rfl⟩ := Option.map_eq_some_iff.mp h
  intro hthreads
  have hgrows : Grows p { p with threads := p.threads.set i thread } := .of_same rfl rfl
  refine hgrows.ne_nil (hp fun hnil => hthreads ?_)
  dsimp only
  rw [hnil]
  rfl

theorem restart_loaded (h : p.restart decoded = some q) (hp : p.Loaded)
    (hthreads : p.threads ≠ []) : q.entries ≠ [] := by
  obtain ⟨file, hfile, hrestore⟩ := Option.bind_eq_some_iff.mp h
  obtain ⟨pages, hpages, rfl⟩ := Option.map_eq_some_iff.mp hfile
  refine (restore_process_counts hrestore).2 ?_
  unfold snapshot_pages at hpages
  split at hpages
  · cases hpages
    refine List.ne_nil_of_length_pos ?_
    rw [List.length_insertionSort]
    exact List.length_pos_iff.mpr (hp hthreads)
  · cases hpages

theorem Loaded.exec (hp : p.Loaded) {e : Event} (hlegal : p.legal e = true)
    (h : p.exec decoded e = some q) : q.Loaded := by
  cases e with
  | process_add_segment start size prot flags =>
      cases h
      have hgrows : Grows p { p with
          process := p.process.process_add_segment start size prot flags } :=
        .of_same (AddrSpaces.TB_add_segment _ _ _ _ _) rfl
      exact fun hthreads => hgrows.ne_nil (hp hthreads)
  | memcpy_to_object_space addr bytes => exact (memcpy_loads h).loaded hp
  | addr2phys addr =>
      obtain ⟨⟨phys, s⟩, hphys, rfl⟩ := Option.map_eq_some_iff.mp h
      obtain ⟨hgrows, hthreads, -⟩ := addr2phys_grows hphys
      exact (Loads.mk hgrows hthreads).loaded hp
  | addr2iphys addr =>
      obtain ⟨⟨found, s⟩, hfound, rfl⟩ := Option.map_eq_some_iff.mp h
      obtain ⟨hgrows, hthreads, -⟩ := addr2iphys_grows hfound
      exact (Loads.mk hgrows hthreads).loaded hp
  | decode_text_region start n => exact (decode_text_region_loads h).loaded hp
  | init_main_thread entry_point =>
      obtain ⟨-, hsegment⟩ := Bool.and_eq_true_iff.mp hlegal
      obtain ⟨⟨found, s⟩, hfound, rfl⟩ := Option.map_eq_some_iff.mp h
      obtain ⟨-, -, hne⟩ := addr2iphys_grows hfound
      have hentries := hne hsegment
      intro _
      refine Grows.ne_nil ?_ hentries
      exact .of_same rfl rfl
  | init_thread_addr_space parent stack_end Stack_size =>
      obtain ⟨pthread, hparent, rfl⟩ := Option.map_eq_some_iff.mp h
      have hthreads : p.threads ≠ [] := by
        intro hnil
        rw [hnil] at hparent
        cases hparent
      intro _
      refine Grows.ne_nil ?_ (hp hthreads)
      exact .of_same (AddrSpaces.TB_add_segment _ _ _ _ _) rfl
  | setMapReg i reg value => exact onThread_loaded h hp
  | setThread i fields => exact onThread_loaded h hp
  | setProcess fields =>
      cases h
      have hgrows : Grows p { p with fields := fields } := .of_same rfl rfl
      exact fun hthreads => hgrows.ne_nil (hp hthreads)
  | thread i e next => exact onThread_loaded h hp
  | restore =>
      obtain ⟨hnonempty, -⟩ := Bool.and_eq_true_iff.mp hlegal
      have hthreads : p.threads ≠ [] := by simpa using hnonempty
      exact fun _ => restart_loaded h hp hthreads

theorem loaded_of_reaches (h : Reaches Start (Step decoded) p) : p.Loaded := by
  refine h.invariant ?_ ?_
  · rintro s rfl hthreads
    exact absurd rfl hthreads
  · rintro s t hs ⟨e, hlegal, hexec⟩
    exact hs.exec hlegal hexec

/-- A process that has a page is not restored. -/
theorem not_restores_of_entries (hentries : p.entries ≠ []) : ¬ Restores p decoded := by
  rintro ⟨q, hrestart, hrestored⟩
  obtain ⟨file, hfile, hrestore⟩ := Option.bind_eq_some_iff.mp hrestart
  obtain ⟨pages, hpages, rfl⟩ := Option.map_eq_some_iff.mp hfile
  have hcounts := (restore_process_counts hrestore).1
  have hcounted := hrestored.counted
  have hpos := List.length_pos_iff.mpr hentries
  unfold snapshot_pages at hpages
  split at hpages
  · rename_i hnum
    dsimp only at hcounts
    omega
  · cases hpages

/-- **No process that has been loaded is restored from its snapshot.** -/
theorem not_restores (h : Reaches Start (Step decoded) p) (hquiet : p.quiet = true) :
    ¬ Restores p decoded := by
  obtain ⟨hnonempty, -⟩ := Bool.and_eq_true_iff.mp hquiet
  exact not_restores_of_entries (loaded_of_reaches h (by simpa using hnonempty))

/-- Every word is an instruction that names no other one. -/
def plain : ProcessState → UInt64 → Decoded := fun _ _ => ⟨[], none⟩

/-- A program of one page. -/
def load : List Event :=
  [.process_add_segment 0x10000 0x10000 PROT_READ MAP_SHARED,
    .memcpy_to_object_space 0x10000 [1, 2], .decode_text_region 0x10000 1,
    .init_main_thread 0x10000]

theorem reaches_after {es : List Event}
    (h : after (fun s => s.exec decoded) legal es init = some p) :
    Reaches Start (Step decoded) p :=
  Reaches.after (fun _ e _ hok hexec => ⟨e, hok, hexec⟩) (.start rfl) h

/-! ### A program of one page -/

/-- The page of the program is in the translation buffer, and nothing is behind it. -/
structure OnePage (pg : Mapping) (p : ProcessState) : Prop where
  chain : p.process.TB 1 = [⟨0, pg, some 0⟩]
  behind : p.process.TB 2 = []
  segments : ∃ prot flags, p.process.segments = [⟨0x10000, 0x1ffff, prot, flags⟩]

namespace OnePage

variable {pg : Mapping}

theorem TB_VPAGE_eq {a : Nat} (hle : 0x10000 ≤ a) (hlt : a < 0x20000) :
    TB_VPAGE (UInt64.ofNat a) = 1 := by
  unfold TB_VPAGE
  rw [UInt64.toInt64_ofNat', Int64.toInt_ofNat_of_lt (by omega)]
  omega

theorem tlb_lookup (h : OnePage pg p) {a : Nat} (hle : 0x10000 ≤ a) (hlt : a < 0x20000) :
    p.tlb_lookup (UInt64.ofNat a) = some (some pg, p) := by
  have hlook : (p.process.TB 1).look 0 = .hit ⟨0, pg, some 0⟩ [⟨0, pg, some 0⟩] := by
    rw [h.chain]
    rfl
  unfold ProcessState.tlb_lookup misses Process.tlb_lookup
  dsimp only
  rw [TB_VPAGE_eq hle hlt, show TB_KEY 1 = 1 from rfl, show TB_TAG 1 = 0 from rfl, hlook,
    ← h.chain]
  dsimp only
  rw [if_neg Bool.false_ne_true, Function.update_eq_self]

theorem addr2phys (h : OnePage pg p) {a : Nat} (hle : 0x10000 ≤ a) (hlt : a < 0x20000) :
    p.addr2phys (UInt64.ofNat a) = some (some (pg.page + TB_OFFSET (UInt64.ofNat a)), p) := by
  unfold ProcessState.addr2phys
  rw [h.tlb_lookup hle hlt]
  rfl

theorem addr2iphys_behind (h : OnePage pg p) : p.addr2iphys 0x20000 = some (false, p) := by
  obtain ⟨prot, flags, hsegments⟩ := h.segments
  have hnone : p.process.process_find_segment 0x20000 = none := by
    unfold Process.process_find_segment
    rw [hsegments]
    rfl
  have hlook : (p.process.TB 2).look 0 = .miss := by
    rw [h.behind]
    rfl
  unfold ProcessState.addr2iphys ProcessState.tlb_lookup misses Process.tlb_lookup Process.tlb_miss
  dsimp only
  rw [show TB_VPAGE 0x20000 = 2 by decide +kernel, show TB_KEY 2 = 2 from rfl,
    show TB_TAG 2 = 0 from rfl, hlook, hnone]
  rfl

/-- A lookup for text makes no entry. -/
theorem addr2iphys (h : OnePage pg p) {a : Nat} (hle : 0x10000 ≤ a) (hle' : a ≤ 0x20000) :
    ∃ found q, OnePage pg q ∧ q.num_pages = p.num_pages ∧
      p.addr2iphys (UInt64.ofNat a) = some (found, q) := by
  by_cases hlt : a < 0x20000
  · refine ⟨true, { p with textpage := Function.update p.textpage pg.page true },
      ⟨h.chain, h.behind, h.segments⟩, rfl, ?_⟩
    unfold ProcessState.addr2iphys
    rw [h.tlb_lookup hle hlt]
    rfl
  · obtain rfl : a = 0x20000 := by omega
    exact ⟨false, p, h, rfl, h.addr2iphys_behind⟩

/-- Nor does decoding the rest of the page. -/
theorem decodeLoop (h : OnePage pg p) {n a : Nat} (hle : 0x10000 ≤ a)
    (hend : a + 4 * n = 0x20000) : ∃ q, OnePage pg q ∧ q.num_pages = p.num_pages ∧
      decodeLoop plain n (UInt64.ofNat a) p = some q := by
  induction n generalizing a p with
  | zero => exact ⟨p, h, rfl, rfl⟩
  | succ n ih =>
      have hnext : UInt64.ofNat a + 4 = UInt64.ofNat (a + 4) := (UInt64.ofNat_add a 4).symm
      have hdecode (s : ProcessState) : s.decode_instr plain (UInt64.ofNat a) = some s := rfl
      obtain ⟨found, q, hq, hpages, hiphys⟩ := h.addr2iphys (a := a + 4) (by omega) (by omega)
      obtain ⟨r, hr, hpages', hloop⟩ := ih hq (a := a + 4) (by omega) (by omega)
      refine ⟨r, hr, hpages'.trans hpages, ?_⟩
      unfold ProcessState.decodeLoop
      rw [h.addr2phys hle (by omega), hnext]
      simp only [Option.bind_some, hiphys, hdecode]
      exact hloop

theorem decode_text_region (h : OnePage pg p) : ∃ q, OnePage pg q ∧ q.num_pages = p.num_pages ∧
    p.decode_text_region plain (UInt64.ofNat 0x10000) 0x4000 = some q := by
  obtain ⟨found, s, hs, hpages, hiphys⟩ := h.addr2iphys (a := 0x10000) (by omega) (by omega)
  have hs' : OnePage pg { s with n_instructions := s.n_instructions + 0x4000 } :=
    ⟨hs.chain, hs.behind, hs.segments⟩
  obtain ⟨q, hq, hpages', hloop⟩ := hs'.decodeLoop (n := 0x4000) (a := 0x10000) (by omega)
    (by omega)
  refine ⟨q, hq, hpages'.trans hpages, ?_⟩
  unfold ProcessState.decode_text_region
  rw [hiphys]
  exact hloop

/-- The rest of a restore, after the page was found. -/
theorem restore_threads (h : OnePage pg p) {st : ThreadRecord} (hpc : st.pc = 0x10000) :
    ∃ q, q.num_pages = p.num_pages ∧ p.restore_threads [st] = some q := by
  obtain ⟨found, s, hs, hpages, hiphys⟩ := h.addr2iphys (a := 0x10000) (by omega) (by omega)
  refine ⟨{ s with threads := s.threads ++ [restored st (if found then some st.pc else none)] },
    hpages, ?_⟩
  change (p.restore_thread st).bind some = _
  unfold restore_thread
  rw [hpc, if_pos (by decide), show (0x10000 : UInt64) = UInt64.ofNat 0x10000 from rfl, hiphys]
  rfl

end OnePage

/-- A restore of the page looks it up, and decodes it. -/
theorem restore_page_load {s : ProcessState} {phys : Nat} {pg : Mapping} {spd : PageRecord}
    (hvpage : spd.vpage = 0x10000) (htext : spd.hastextpage = true)
    (hphys : p.addr2phys 0x10000 = some (some phys, s)) (h : OnePage pg s) :
    ∃ q, OnePage pg q ∧ q.num_pages = s.num_pages ∧ p.restore_page plain spd = some q := by
  obtain ⟨prot, flags, hsegments⟩ := h.segments
  have hset : OnePage pg ((s.readPage phys spd.page).setProt 0x10000 (· ||| PROT_EXEC)) := by
    refine ⟨h.chain, h.behind, prot ||| PROT_EXEC, flags, ?_⟩
    unfold setProt readPage
    dsimp only
    rw [hsegments]
    rfl
  obtain ⟨q, hq, hpages, hdecode⟩ := hset.decode_text_region
  refine ⟨q, hq, hpages, ?_⟩
  unfold restore_page
  rw [hvpage, hphys, htext]
  exact hdecode

/-- What the snapshot of the program is, and what the first lookup of its page makes. -/
theorem snapshot_load : ∃ p file, Reaches Start (Step plain) p ∧ p.quiet = true ∧
    p.num_pages = 1 ∧ p.snapshot_process = some file ∧
    file.pages.map (fun spd => (spd.vpage, spd.hastextpage)) = [(0x10000, true)] ∧
    file.threads.map (·.pc) = [0x10000] ∧
    ∃ phys s pg, (restore_fields file).addr2phys 0x10000 = some (some phys, s) ∧
      s.num_pages = 2 ∧ OnePage pg s := by
  have hload : (after (fun s => s.exec plain) legal load init).any (fun p =>
      p.quiet && p.num_pages = 1 && p.snapshot_process.any fun file =>
        file.pages.map (fun spd => (spd.vpage, spd.hastextpage)) = [(0x10000, true)] &&
          file.threads.map (·.pc) = [0x10000] &&
            ((restore_fields file).addr2phys 0x10000).any fun r =>
              r.1 = some 0x200000000 && r.2.num_pages = 2 &&
                r.2.process.TB 1 = [⟨0, ⟨0x200000000, 1, 1⟩, some 0⟩] &&
                  r.2.process.TB 2 = [] &&
                    r.2.process.segments = [⟨0x10000, 0x1ffff, 1, 1⟩]) = true := by
    decide +kernel
  simp only [Option.any_eq_true, Bool.and_eq_true, decide_eq_true_eq] at hload
  obtain ⟨p, hp, ⟨hquiet, hpages⟩, file, hfile, ⟨hrecords, hpcs⟩, ⟨phys, s⟩, hphys,
    ⟨⟨⟨rfl, hnum⟩, hchain⟩, hbehind⟩, hsegments⟩ := hload
  exact ⟨p, file, reaches_after hp, hquiet, hpages, hfile, hrecords, hpcs, _, s, _, hphys, hnum,
    hchain, hbehind, _, _, hsegments⟩

/-- It is restored, with its page counted twice. -/
theorem reaches_load : ∃ p q, Reaches Start (Step plain) p ∧ p.quiet = true ∧ p.num_pages = 1 ∧
    p.restart plain = some q ∧ q.num_pages = 2 ∧ q.entries.length = 1 := by
  obtain ⟨p, file, hreaches, hquiet, hpages, hfile, hrecords, hpcs, phys, s, pg, hphys, hnum, hs⟩ :=
    snapshot_load
  obtain ⟨spd, hrecord, hspd⟩ := List.map_eq_singleton_iff.mp hrecords
  obtain ⟨st, hthread, hpc⟩ := List.map_eq_singleton_iff.mp hpcs
  obtain ⟨hvpage, htext⟩ := Prod.mk.inj hspd
  obtain ⟨r, hr, hcount, hpage⟩ := restore_page_load hvpage htext hphys hs
  obtain ⟨q, hcount', hthreads⟩ := hr.restore_threads hpc
  have hrestore : restore_process plain file = some q := by
    unfold restore_process restore_pages
    rw [hrecord, hthread]
    change (((restore_fields file).restore_page plain spd).bind some).bind _ = _
    rw [hpage]
    exact hthreads
  have hcounts := (restore_process_counts hrestore).1
  have hfilePages : file.num_pages = p.num_pages := by
    obtain ⟨pages, -, rfl⟩ := Option.map_eq_some_iff.mp hfile
    rfl
  refine ⟨p, q, hreaches, hquiet, hpages, ?_, by omega, by omega⟩
  unfold restart
  rw [hfile]
  exact hrestore

theorem not_restores_load : ∃ p q, Reaches Start (Step plain) p ∧ p.quiet = true ∧
    p.num_pages = 1 ∧ p.restart plain = some q ∧ q.num_pages = 2 ∧ q.entries.length = 1 ∧
    ¬ Restores p plain := by
  obtain ⟨p, q, hreaches, hquiet, hpages, hrestart, hcounted, hentries⟩ := reaches_load
  exact ⟨p, q, hreaches, hquiet, hpages, hrestart, hcounted, hentries,
    not_restores hreaches hquiet⟩

/-- One page is counted twice. -/
theorem not_always_restores :
    ¬ ∀ p, Reaches Start (Step plain) p → p.quiet = true → Restores p plain := by
  intro hall
  obtain ⟨p, -, hreaches, hquiet, -⟩ := reaches_load
  obtain ⟨hnonempty, -⟩ := Bool.and_eq_true_iff.mp hquiet
  have hentries := loaded_of_reaches hreaches (by simpa using hnonempty)
  exact not_restores_of_entries hentries (hall p hreaches hquiet)

end ProcessState

end AsimFeeder.Aint.Snapshot
