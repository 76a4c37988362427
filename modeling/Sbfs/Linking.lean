import Sbfs.Directories

/-! # `link` and `unlink`

The two methods that change a directory and the link count of one other inode.  `LinkResult`
and `UnlinkResult` list the ways they can end. -/

namespace Sbfs

open Slot PackedMap

/-- The entries after `name` has been bound to `t`. -/
inductive Linked (es : List (Name × Nat)) (name : Name) (t : Nat) (replace : Bool) : List (Name × Nat) → Prop where
  | replaced (allowed : replace = true) {e x : Nat} (here : es[e]? = some (name, x)) :
      Linked es name t replace (es.set e (name, t))
  | appended (absent : ∀ x, (name, x) ∉ es) : Linked es name t replace (es ++ [(name, t)])

namespace Linked

variable {es es' : List (Name × Nat)} {name : Name} {t : Nat} {replace : Bool}

theorem distinct (linked : Linked es name t replace es') (distinct : Distinct es) : Distinct es' := by
  cases linked with
  | replaced _ here => exact distinct.set here t
  | appended absent => exact distinct.append absent t

theorem names (linked : Linked es name t replace es') (names : ∀ x ∈ es, ProperName x.1)
    (proper : ProperName name) : ∀ x ∈ es', ProperName x.1 := by
  intro x member
  cases linked with
  | replaced _ here =>
    cases List.mem_or_eq_of_mem_set member with
    | inl old => exact names x old
    | inr new => exact new ▸ proper
  | appended absent =>
    cases List.mem_append.mp member with
    | inl old => exact names x old
    | inr new => exact (List.mem_singleton.mp new) ▸ proper

theorem find (linked : Linked es name t replace es') (distinct : Distinct es) :
    find es' = Function.update (PackedMap.find es) name (some t) := by
  cases linked with
  | replaced _ here => exact find_set distinct here t
  | appended absent => exact find_append distinct absent t

end Linked

section

variable {L : Layout} {s s' s'' : Disk} {live : Nat → Prop} {a t : Nat} {d d' : DiskInode} {name : Name}
  {replace : Bool}

/-- The link counts while one of them is changed. -/
def recount (count : Nat → UInt16) (t : Nat) (f : UInt16 → UInt16) : Nat → UInt16 :=
  Function.update count t (f (count t))

/-- How `link` ends. -/
inductive LinkResult (L : Layout) (live : Nat → Prop) (a : Nat) (name : Name) (t : Nat) (replace : Bool)
    (s s' : Disk) : Ret → Prop where
  | done {es : List (Name × Nat)}
      (linked : Linked ((L.inode s.blocks a).entries s.blocks) name t replace es)
      (marks : SameMarks L s s')
      -- the count of the directory itself is overwritten by its copy in memory
      (edited : Edited L live a es
        (Function.update (recount (L.links s.blocks) t (· + 1)) a (L.links s.blocks a)) s s') :
      LinkResult L live a name t replace s s' .kSuccess
  | refused (quiet : Touches (fun _ => False) s s')
      (cause : replace = false ∧ (∃ x, (name, x) ∈ (L.inode s.blocks a).entries s.blocks) ∨
        23 ≤ dataBlocks (L.inode s.blocks a).size.toNat) :
      LinkResult L live a name t replace s s' .kFail
  | full (absent : ∀ x, (name, x) ∉ (L.inode s.blocks a).entries s.blocks)
      (marks : SameMarks L s s')
      (edited : Edited L live a ((L.inode s.blocks a).entries s.blocks)
        (recount (L.links s.blocks) t (· + 1)) s s')
      (short : (L.formatted.dataBitmap.freeIds s.blocks).length <
        growth (L.inode s.blocks a) ((L.inode s.blocks a).size.toNat + 256)) :
      LinkResult L live a name t replace s s' .kFail

/-- The directory between the change of a link count and the change of its entries. -/
theorem Populated.run_modifyInode_copy (state : Populated L s live) (here : live a) (slotId : L.SlotId t)
    (f : UInt16 → UInt16) {s₁ : Disk} (quiet : Touches (fun _ => False) s s₁)
    (retimed : Retimed (L.inode s.blocks a) d) :
    ∃ s₂, (modifyInode (L.slot t) fun d => { d with linkCnt := f d.linkCnt }).run s₁ = (.kSuccess, s₂) ∧
      Populated L s₂ live ∧ SameMap (L.inode s₂.blocks a) d ∧ SameMarks L s s₂ ∧
      L.formatted.dataBitmap.freeIds s₂.blocks = L.formatted.dataBitmap.freeIds s.blocks ∧
      (∀ j, live j → Recounted L j (recount (L.links s.blocks) t f j) s s₂) ∧
      ∀ b, L.Lost live s₂ b ↔ L.Lost live s b := by
  obtain ⟨state₁, same₁⟩ := state.underneath (quiet.mono fun _ => False.elim)
  obtain ⟨s₂, run, state₂, touches, same₂⟩ := state₁.run_modifyInode slotId f
  have blocks := quiet.quiet
  -- the scan before has changed no block, so that the link counts are those of `s`
  have count : ∀ j, recount (L.links s.blocks) t f j =
      if j = t then f (L.inode s₁.blocks j).linkCnt else (L.inode s₁.blocks j).linkCnt := by
    intro j
    rw [recount, Function.update_apply, blocks]
    split
    next is => rw [is, Layout.links]
    next => rfl
  have recounted : ∀ j, live j → Recounted L j (recount (L.links s.blocks) t f j) s s₂ := by
    intro j there
    rw [count]
    exact (Recounted.of_sameFile (same₁ j there)).trans (same₂ j there)
  have area : ∀ b, b = (L.slot t).blockId → L.inodeAreaStart ≤ b := fun b same => same ▸ Layout.slot_area slotId
  have low : ∀ b, False ∨ b = (L.slot t).blockId → b < L.formatted.dataBitmap.startBlockId :=
    fun b same => same.elim False.elim fun same => same ▸ Layout.slot_low slotId
  have lost := state.below_lost (((quiet.mono fun _ => Or.inl).trans (touches.mono fun _ => Or.inr)).mono low)
    fun j there => by
      rw [(recounted j there).inode]
      exact .recounted _ _
  refine ⟨s₂, run, state₂, ?_, ?_, ?_, recounted, lost⟩
  rotate_left
  · exact .trans (.of_touches quiet fun _ => False.elim) (.of_touches touches fun b same => .inr (area b same))
  rotate_right
  · rw [(recounted a here).inode]
    exact (SameMap.recounted _ _).symm.trans (.of_retimed retimed)
  · rw [← blocks]
    refine Bitmap.freeIds_congr fun b holds => touches.blocks _ fun same => ?_
    have := Layout.slot_low slotId
    have := holds.1
    omega

/-- What `link` and `unlink` have of the directory when they change it. -/
structure OpenCopy (L : Layout) (a : Nat) (es : List (Name × Nat)) (d : DiskInode) (s : Disk) : Prop where
  copy : SameMap (L.inode s.blocks a) d
  type : d.type = kDirectory
  aligned : d.size.toNat = 256 * es.length
  entries : d.entries s.blocks = es

theorem Populated.openCopy (here : live a) (ok : Searchable L a s) (retimed : Retimed (L.inode s.blocks a) d)
    (copy : SameMap (L.inode s'.blocks a) d) {count : Nat → UInt16}
    (recounted : ∀ j, live j → Recounted L j (count j) s s') :
    OpenCopy L a ((L.inode s.blocks a).entries s.blocks) d s' where
  copy := copy
  type := by
    rw [retimed]
    exact ok.dir.type
  aligned := by
    rw [retimed.size]
    exact ok.dir.aligned
  entries := (copy.entries _).trans (recounted a here).entries

/-- The entries are changed in a copy, and the copy is saved. -/
theorem Populated.run_linked {s₂ s₃ : Disk} (state : Populated L s₂ live) (here : live a)
    (ok : Searchable L a s) (proper : ProperName name)
    (marks : SameMarks L s s₂)
    (recounted : ∀ j, live j → Recounted L j (recount (L.links s.blocks) t (· + 1) j) s s₂)
    (opened : OpenCopy L a ((L.inode s.blocks a).entries s.blocks) d s₂)
    (count : d.linkCnt = L.links s.blocks a) {es : List (Name × Nat)}
    (linked : Linked ((L.inode s.blocks a).entries s.blocks) name t replace es)
    (reworked : Reworked L.formatted.dataBitmap (fun _ => False) es d s₂ d' s₃) :
    ∃ s', (writeInode (L.slot a) d').run s₃ = (.kSuccess, s') ∧ LinkResult L live a name t replace s s' .kSuccess ∧
      ∀ b, L.Lost live s' b ↔ L.Lost live s₂ b := by
  obtain ⟨s', run, marks', edited, lost⟩ := state.reworked_saved here opened.copy opened.type reworked
    (linked.names ok.dir.names proper) (linked.distinct ok.dir.distinct)
  refine ⟨s', run, .done linked (marks.trans marks') ((Edited.after recounted edited).congr here fun j there => ?_), lost⟩
  rw [count]
  by_cases is : j = a
  · rw [is, Function.update_self, Function.update_self]
  · rw [Function.update_of_ne is, Function.update_of_ne is, Layout.links, (recounted j there).inode]

/-- `Inode::link` of a name that the search has not found, with what becomes of the blocks. -/
theorem Populated.run_link_absent_blocks (state : Populated L s live) (here : live a) (ok : Searchable L a s)
    (proper : ProperName name) (slotId : L.SlotId t) (replace : Bool) {s₁ : Disk}
    (run : (scan (L.inode s.blocks a) name).run s = ((.absent, d), s₁))
    (retimed : Retimed (L.inode s.blocks a) d) (quiet : Touches (fun _ => False) s s₁)
    (none : ∀ x, (name, x) ∉ (L.inode s.blocks a).entries s.blocks) :
    ∃ ret s', (Inode.link L.formatted (L.slot a) name (L.slot t) replace).run s = (ret, s') ∧
      LinkResult L live a name t replace s s' ret ∧
      (growth (L.inode s.blocks a) ((L.inode s.blocks a).size.toNat + 256) ≤
        (L.formatted.dataBitmap.freeIds s.blocks).length → ret = .kSuccess) ∧
      (ret = .kSuccess → ∀ b, L.Lost live s' b ↔ L.Lost live s b) := by
  have isDir : ¬ (L.inode s.blocks a).type ≠ kDirectory := not_not_intro ok.dir.type
  have small := ok.small
  have small32 : t < 4294967296 := slotId.2
  obtain ⟨s₂, modify, state₂, copy, marks, free, recounted, lost⟩ :=
    state.run_modifyInode_copy here slotId (· + 1) quiet retimed
  have opened := Populated.openCopy here ok retimed copy recounted
  have map := copy.map (state₂.volume.map a here)
  have aligned := opened.aligned
  have count : d.linkCnt = L.links s.blocks a := by
    rw [retimed]
    rfl
  simp only [Inode.link, DevProg.run_bind, state.run_readInode here, isDir, if_false, run,
    Layout.diskInodeId_slot slotId]
  obtain ⟨ret, d₃, s₃, append, extended⟩ := Inode.run_appendEntry_any map
    state₂.volume.segment state₂.failId aligned (by omega) name t
  have size : (L.inode s.blocks a).size.toNat + 256 = 256 * ((L.inode s.blocks a).entries s.blocks).length + 256 := by
    rw [ok.dir.aligned]
  cases ret with
  | kSuccess =>
    have reworked := Reworked.appended (extended.written rfl) aligned
    rw [opened.entries, entriesIn_dirEntry proper small32] at reworked
    obtain ⟨s', save, result, lost'⟩ :=
      state₂.run_linked here ok proper marks recounted opened count (.appended none) reworked
    refine ⟨_, s', ?_, result, fun _ => rfl, fun _ b => (lost' b).trans (lost b)⟩
    simp only [DevProg.run_bind, modify, append, save]
  | kFail =>
    -- an append fails for want of blocks only
    have short : (L.formatted.dataBitmap.freeIds s.blocks).length <
        growth (L.inode s.blocks a) ((L.inode s.blocks a).size.toNat + 256) := by
      by_contra enough
      rw [not_lt, growth, ← retimed.size, ← growth, retimed.size, size, ← free] at enough
      exact absurd (extended.enough enough) (by decide)
    obtain ⟨state₃, same⟩ := state₂.dropped here (copy.dropped extended.dropped)
    have all : ∀ j, live j → Recounted L j (recount (L.links s.blocks) t (· + 1) j) s s₃ := by
      intro j there
      have second := Recounted.of_sameFile (same j there)
      rw [(recounted j there).inode] at second
      exact (recounted j there).trans second
    have marks' := marks.trans (.of_evolved extended.dropped.evolved state₂.volume.segment fun _ => False.elim)
    refine ⟨.kFail, s₃, ?_, .full none marks' (.of_recounted state₃ here ok.dir all) short, fun enough => ?_,
      fun success => by cases success⟩
    · simp only [DevProg.run_bind, modify, append, DevProg.run_pure]
    · exact absurd enough (Nat.not_le_of_lt short)

/-- `Inode::link` of a name that the search has not found. -/
theorem Populated.run_link_absent (state : Populated L s live) (here : live a) (ok : Searchable L a s)
    (proper : ProperName name) (slotId : L.SlotId t) (replace : Bool) {s₁ : Disk}
    (run : (scan (L.inode s.blocks a) name).run s = ((.absent, d), s₁))
    (retimed : Retimed (L.inode s.blocks a) d) (quiet : Touches (fun _ => False) s s₁)
    (none : ∀ x, (name, x) ∉ (L.inode s.blocks a).entries s.blocks) :
    ∃ ret s', (Inode.link L.formatted (L.slot a) name (L.slot t) replace).run s = (ret, s') ∧
      LinkResult L live a name t replace s s' ret ∧
      (growth (L.inode s.blocks a) ((L.inode s.blocks a).size.toNat + 256) ≤
        (L.formatted.dataBitmap.freeIds s.blocks).length → ret = .kSuccess) := by
  obtain ⟨ret, s', run, result, success, -⟩ :=
    state.run_link_absent_blocks here ok proper slotId replace run retimed quiet none
  exact ⟨ret, s', run, result, success⟩

/-- `Inode::link`, with what becomes of the blocks. -/
theorem Populated.run_link_blocks (state : Populated L s live) (here : live a) (ok : Searchable L a s)
    (proper : ProperName name) (slotId : L.SlotId t) (replace : Bool) :
    ∃ ret s', (Inode.link L.formatted (L.slot a) name (L.slot t) replace).run s = (ret, s') ∧
      LinkResult L live a name t replace s s' ret ∧ (ret = .kSuccess → ∀ b, L.Lost live s' b ↔ L.Lost live s b) := by
  obtain ⟨r, d, s₁, run, retimed, quiet, answers, whole⟩ := state.run_scan here ok proper
  have isDir : ¬ (L.inode s.blocks a).type ≠ kDirectory := not_not_intro ok.dir.type
  have small := ok.small
  have small32 : t < 4294967296 := slotId.2
  obtain ⟨s₂, modify, state₂, copy, marks, free, recounted, lost⟩ :=
    state.run_modifyInode_copy here slotId (· + 1) quiet retimed
  have opened := Populated.openCopy here ok retimed copy recounted
  have map := copy.map (state₂.volume.map a here)
  have aligned := opened.aligned
  have count : d.linkCnt = L.links s.blocks a := by
    rw [retimed]
    rfl
  cases answers with
  | failed none =>
    simp only [Inode.link, DevProg.run_bind, state.run_readInode here, isDir, if_false, run]
    refine ⟨_, _, rfl, .refused quiet (.inr ?_), fun success => by cases success⟩
    by_contra few
    exact whole (by omega) rfl
  | @found i j x low entry =>
    simp only [Inode.link, DevProg.run_bind, state.run_readInode here, isDir, if_false, run,
      Layout.diskInodeId_slot slotId]
    cases replace with
    | false =>
      exact ⟨_, _, rfl, .refused quiet (.inl ⟨rfl, x, List.mem_of_getElem? entry⟩), fun success => by cases success⟩
    | true =>
      -- the entry is written over in its place
      have inside := (List.getElem?_eq_some_iff.mp entry).1
      obtain ⟨d₃, s₃, write, written⟩ := run_overwrite (W := fun _ => False) map state₂.volume.segment
        state₂.failId (by omega) (dirEntry name t) (show 0 < 256 by omega)
        (show 256 * (16 * i + j) + 256 ≤ d.size.toNat by omega)
      have reworked := Reworked.overwritten written aligned inside
      rw [opened.entries, entryAt_dirEntry proper.fits proper.noZero small32 fun p _ => by
        rw [Nat.mul_zero, Nat.zero_add]] at reworked
      obtain ⟨s', save, result, lost'⟩ := state₂.run_linked here ok proper marks recounted opened count
        (.replaced rfl entry) reworked
      refine ⟨_, s', ?_, result, fun _ b => (lost' b).trans (lost b)⟩
      have place : entryOffset i j = 256 * (16 * i + j) := by
        rw [entryOffset]
        omega
      have write' : (d.writeData (256 * (16 * i + j)) (dirEntry name t) 256).run s₂ = ((256, d₃), s₃) := write
      simp only [if_true, DevProg.run_bind, modify, place, write', show ¬ (256 : Int) = -1 by decide, if_false, save]
  | absent none =>
    obtain ⟨ret, s', run', result, -, lost⟩ :=
      state.run_link_absent_blocks here ok proper slotId replace run retimed quiet none
    exact ⟨ret, s', run', result, lost⟩

/-- `Inode::link`. -/
theorem Populated.run_link (state : Populated L s live) (here : live a) (ok : Searchable L a s)
    (proper : ProperName name) (slotId : L.SlotId t) (replace : Bool) :
    ∃ ret s', (Inode.link L.formatted (L.slot a) name (L.slot t) replace).run s = (ret, s') ∧
      LinkResult L live a name t replace s s' ret := by
  obtain ⟨ret, s', run, result, -⟩ := state.run_link_blocks here ok proper slotId replace
  exact ⟨ret, s', run, result⟩

/-- A name that is not there, in a directory whose blocks are scanned to the end and with room
for one more entry. -/
theorem Populated.run_link_fresh (state : Populated L s live) (here : live a) (ok : Searchable L a s)
    (proper : ProperName name) (slotId : L.SlotId t) (absent : ∀ x, (name, x) ∉ (L.inode s.blocks a).entries s.blocks)
    (few : dataBlocks (L.inode s.blocks a).size.toNat < 23)
    (enough : growth (L.inode s.blocks a) ((L.inode s.blocks a).size.toNat + 256) ≤
      (L.formatted.dataBitmap.freeIds s.blocks).length) (replace : Bool) :
    ∃ s', (Inode.link L.formatted (L.slot a) name (L.slot t) replace).run s = (.kSuccess, s') ∧ SameMarks L s s' ∧
      Edited L live a ((L.inode s.blocks a).entries s.blocks ++ [(name, t)])
        (Function.update (recount (L.links s.blocks) t (· + 1)) a (L.links s.blocks a)) s s' := by
  obtain ⟨ret, s', run, result⟩ := state.run_link here ok proper slotId replace
  cases result with
  | refused _ cause =>
    rcases cause with ⟨-, x, bound⟩ | many
    · exact absurd bound (absent x)
    · omega
  | full _ _ _ short => omega
  | done linked marks edited =>
    cases linked with
    | replaced _ bound => exact absurd (List.mem_of_getElem? bound) (absent _)
    | appended => exact ⟨s', run, marks, edited⟩

/-! ## `unlink` -/

/-- How `unlink` ends. -/
inductive UnlinkResult (L : Layout) (live : Nat → Prop) (a : Nat) (name : Name) (s s' : Disk) :
    Ret × Option Position → Prop where
  | done {e x : Nat} (here : ((L.inode s.blocks a).entries s.blocks)[e]? = some (name, x))
      (marks : SameMarks L s s')
      (edited : Edited L live a (removeAt ((L.inode s.blocks a).entries s.blocks) e)
        (recount (L.links s.blocks) x (· - 1)) s s') :
      UnlinkResult L live a name s s' (.kSuccess, some (L.slot x))
  | absent (quiet : Touches (fun _ => False) s s')
      (unbound : ∀ x, (name, x) ∉ (L.inode s.blocks a).entries s.blocks) :
      UnlinkResult L live a name s s' (.kFail, none)

/-- The steps by which `unlink` and `remove` take entry `j` of block `i` out. -/
theorem Populated.run_takeOut (state : Populated L s live) (here : live a) (ok : Searchable L a s)
    (few : ((L.inode s.blocks a).entries s.blocks).length ≤ 33152) {s₁ : Disk}
    (quiet : Touches (fun _ => False) s s₁) (retimed : Retimed (L.inode s.blocks a) d) {i j : Nat} {x : Name × Nat}
    (low : j < 16) (entry : ((L.inode s.blocks a).entries s.blocks)[16 * i + j]? = some x) :
    ∃ d₁ s₂ d' s', (moveLast d i j).run s₁ = ((.kSuccess, d₁), s₂) ∧
      (d₁.resize (uint32 ((d₁.size.toNat : Int) - 256)) L.formatted.dataBitmap (some (L.slot a))).run s₂ =
        ((.kSuccess, d'), s') ∧ SameMarks L s s' ∧
      Edited L live a (removeAt ((L.inode s.blocks a).entries s.blocks) (16 * i + j)) (L.links s.blocks) s s' ∧
      BlocksKept L live live a s s' := by
  obtain ⟨state₁, same₁⟩ := state.underneath (quiet.mono fun _ => False.elim)
  have recounted : ∀ j, live j → Recounted L j (L.links s.blocks j) s s₁ := fun j there => .of_sameFile (same₁ j there)
  have slotId := state.slots a here
  have blocks := quiet.quiet
  have copy : SameMap (L.inode s₁.blocks a) d := by
    rw [blocks]
    exact .of_retimed retimed
  have opened := Populated.openCopy here ok retimed copy recounted
  have inside := (List.getElem?_eq_some_iff.mp entry).1
  have start := Layout.slot_area slotId
  have positive : 0 < L.inodeAreaStart := by
    rw [Layout.inodeAreaStart]
    omega
  have below := Layout.slot_low slotId
  obtain ⟨d₁, s₂, d', s', move, shrink, reworked, saved, ids⟩ := Sbfs.run_takeOut
    (copy.map (state₁.volume.map a here)) state₁.volume.segment state₁.failId opened.aligned few (by omega) below
    low inside
  rw [opened.entries] at reworked
  have low : ∀ b, TakeOutWrites (L.slot a) b → b < L.formatted.dataBitmap.startBlockId :=
    fun b writes => by cases writes <;> omega
  have area : ∀ b, TakeOutWrites (L.slot a) b → L.inodeAreaStart ≤ b → b = (L.slot a).blockId :=
    fun b writes high => by cases writes <;> omega
  have kept := state₁.evolve_kept here copy reworked.evolved reworked.noLeak saved low area ids
  have edited := state₁.reworked here copy opened.type reworked saved low area
    (fun y member => ok.dir.names y (subset_removeAt inside member))
    (ok.dir.distinct.removeAt (k := x.1) (v := x.2) entry)
  have marks : SameMarks L s s' := .trans (.of_touches quiet fun _ => False.elim)
    (.of_evolved reworked.evolved state₁.volume.segment fun b writes => by cases writes <;> omega)
  refine ⟨d₁, s₂, d', s', move, shrink, marks, (Edited.after recounted edited).congr here fun j there => ?_,
    kept.after quiet⟩
  -- the count of the copy is the old one
  have count : d.linkCnt = L.links s.blocks a := by
    rw [retimed]
    rfl
  rw [count, blocks, Function.update_eq_self]

/-- `Inode::unlink`, with what becomes of the blocks. -/
theorem Populated.run_unlink_blocks (state : Populated L s live) (here : live a) (ok : Searchable L a s)
    (few : ((L.inode s.blocks a).entries s.blocks).length ≤ 33152)
    (slots : ∀ x, (name, x) ∈ (L.inode s.blocks a).entries s.blocks → L.SlotId x) (proper : ProperName name) :
    ∃ r s', (Inode.unlink L.formatted (L.slot a) name).run s = (r, s') ∧ UnlinkResult L live a name s s' r ∧
      ∀ b, L.Lost live s' b ↔ L.Lost live s b := by
  obtain ⟨r, d, s₁, run, retimed, quiet, answers, whole⟩ := state.run_scan here ok proper
  have isDir : ¬ (L.inode s.blocks a).type ≠ kDirectory := not_not_intro ok.dir.type
  have looked := (state.underneath_kept here (quiet.mono fun _ => False.elim)).lost
  cases answers with
  | failed none =>
    refine ⟨_, s₁, ?_, .absent quiet none, looked⟩
    simp only [Inode.unlink, Inode.detach, DevProg.run_bind, state.run_readInode here, isDir, if_false, run,
      DevProg.run_pure]
  | absent none =>
    refine ⟨_, s₁, ?_, .absent quiet none, looked⟩
    simp only [Inode.unlink, Inode.detach, DevProg.run_bind, state.run_readInode here, isDir, if_false, run,
      DevProg.run_pure]
  | @found i j x low entry =>
    obtain ⟨d₁, s₂, d', s₃, move, shrink, marks, edited, kept⟩ := state.run_takeOut here ok few quiet retimed low entry
    have slotId := slots x (List.mem_of_getElem? entry)
    obtain ⟨s', modify, state', touches, same⟩ := edited.state.run_modifyInode slotId (· - 1)
    have marks' : SameMarks L s s' := marks.trans (.of_touches touches fun b same =>
      .inr (same ▸ Layout.slot_area slotId))
    -- the link count is not part of the map, so that no block is lost
    have lost := edited.state.below_lost (touches.mono fun b (is : b = _) => is ▸ Layout.slot_low slotId) fun j there => by
      rw [(same j there).inode]
      exact .recounted _ _
    refine ⟨_, s', ?_, .done entry marks' ((edited.recounted here state' same).congr here fun j there => ?_),
      fun b => (lost b).trans (kept.lost b)⟩
    · have target : L.formatted.getDiskInodePos x = L.slot x := rfl
      simp only [Inode.unlink, Inode.detach, DevProg.run_bind, state.run_readInode here, isDir, if_false, run, move,
        shrink, target, modify, DevProg.run_pure]
    · have before : (L.inode s₃.blocks j).linkCnt = L.links s.blocks j := by
        by_cases is : j = a
        · rw [is]
          exact edited.linkCnt
        · rw [(edited.others j there is).inode]
      rw [before, recount, Function.update_apply]
      split
      next is => rw [is]
      next => rfl

/-- `Inode::unlink`. -/
theorem Populated.run_unlink (state : Populated L s live) (here : live a) (ok : Searchable L a s)
    (few : ((L.inode s.blocks a).entries s.blocks).length ≤ 33152)
    (slots : ∀ x, (name, x) ∈ (L.inode s.blocks a).entries s.blocks → L.SlotId x) (proper : ProperName name) :
    ∃ r s', (Inode.unlink L.formatted (L.slot a) name).run s = (r, s') ∧ UnlinkResult L live a name s s' r := by
  obtain ⟨r, s', run, result, -⟩ := state.run_unlink_blocks here ok few slots proper
  exact ⟨r, s', run, result⟩

/-- A name that is there. -/
theorem Populated.run_unlink_bound (state : Populated L s live) (here : live a) (ok : Searchable L a s)
    (few : ((L.inode s.blocks a).entries s.blocks).length ≤ 33152)
    (slots : ∀ x, (name, x) ∈ (L.inode s.blocks a).entries s.blocks → L.SlotId x) (proper : ProperName name) {e x : Nat}
    (bound : ((L.inode s.blocks a).entries s.blocks)[e]? = some (name, x)) :
    ∃ s', (Inode.unlink L.formatted (L.slot a) name).run s = ((.kSuccess, some (L.slot x)), s') ∧ SameMarks L s s' ∧
      Edited L live a (removeAt ((L.inode s.blocks a).entries s.blocks) e)
        (recount (L.links s.blocks) x (· - 1)) s s' := by
  obtain ⟨r, s', run, result⟩ := state.run_unlink here ok few slots proper
  cases result with
  | absent _ unbound => exact absurd (List.mem_of_getElem? bound) (unbound x)
  | done here' marks edited =>
    obtain ⟨rfl, rfl⟩ := ok.dir.distinct.unique bound here'
    exact ⟨s', run, marks, edited⟩

end

end Sbfs
