import Sbfs.LinkCounts

/-! # Creating and removing again

`create` takes an inode, blocks for the directory and blocks for the new inode; `write_data` and
`resize` take more of them for that inode; and `remove` gives back what these have taken
(`create_remove_restores`).  Between the two the blocks in use that no inode owns are the same, and
the directory keeps the blocks that it has. -/

namespace Sbfs

open PackedMap

/-! ## The file in between -/

/-- Inode `n` has been worked on; what it owns may be different, and nothing else. -/
structure WorkedOn (L : Layout) (live : Nat → Prop) (n : Nat) (s s' : Disk) : Prop where
  state : Populated L s' live
  type : (L.inode s'.blocks n).type = (L.inode s.blocks n).type
  linkCnt : L.links s'.blocks n = L.links s.blocks n
  marks : SameMarks L s s'
  others : ∀ j, live j → j ≠ n → SameFile L j s s'
  lost : ∀ b, L.Lost live s' b ↔ L.Lost live s b

/-- Calls of `write_data` and of `resize` to a larger size on inode `n`, as long as there are
enough blocks. -/
inductive GrowRun (L : Layout) (n : Nat) (s₀ : Disk) : Disk → Prop
  | start : GrowRun L n s₀ s₀
  | write {s s' : Disk} {offset len : Nat} {buf : Mem} {ret : Int} (before : GrowRun L n s₀ s)
      (small : offset + len < 2147483648)
      (enough : growth (L.inode s.blocks n) (offset + len) ≤ (L.formatted.dataBitmap.freeIds s.blocks).length)
      (run : (Inode.writeData L.formatted (L.slot n) offset buf len).run s = (ret, s')) : GrowRun L n s₀ s'
  | resize {s s' : Disk} {newSize : Nat} {ret : Ret} (before : GrowRun L n s₀ s) (small : newSize < 2147483648)
      (grows : (L.inode s.blocks n).size.toNat ≤ newSize)
      (enough : growth (L.inode s.blocks n) newSize ≤ (L.formatted.dataBitmap.freeIds s.blocks).length)
      (run : (Inode.resize L.formatted (L.slot n) newSize).run s = (ret, s')) : GrowRun L n s₀ s'

section

variable {L : Layout} {s s₁ s₂ s' : Disk} {live : Nat → Prop} {a n : Nat} {d₀ d' : DiskInode} {name : Name}

namespace WorkedOn

theorem refl (state : Populated L s live) : WorkedOn L live n s s :=
  ⟨state, rfl, rfl, .refl L s, fun j _ _ => .refl L j s, fun _ => Iff.rfl⟩

theorem trans (first : WorkedOn L live n s s₁) (second : WorkedOn L live n s₁ s') : WorkedOn L live n s s' where
  state := second.state
  type := second.type.trans first.type
  linkCnt := second.linkCnt.trans first.linkCnt
  marks := first.marks.trans second.marks
  others := fun j there ne => (first.others j there ne).trans (second.others j there ne)
  lost := fun b => (second.lost b).trans (first.lost b)

/-- A step that saves the inode, and may write the super block. -/
theorem of_evolved {W : Nat → Prop} (state : Populated L s live) (here : live n)
    (evolved : Evolved L.formatted.dataBitmap W (L.inode s.blocks n) s d' s')
    (wide : ∀ b, W b → b = (L.slot n).blockId ∨ b = 0)
    (noLeak : NoLeak L.formatted.dataBitmap (L.inode s.blocks n) s d' s') (saved : Saved (L.slot n) s d' s')
    (ids : KeepsIds (L.inode s.blocks n) s d' s') (type : d'.type = (L.inode s.blocks n).type)
    (linkCnt : d'.linkCnt = (L.inode s.blocks n).linkCnt) :
    WorkedOn L live n s s' ∧ L.inode s'.blocks n = d' := by
  have slotId := state.slots n here
  have start := Layout.slot_area slotId
  have low : ∀ b, W b → b < L.formatted.dataBitmap.startBlockId := by
    intro b inW
    have := Layout.slot_low slotId
    have := wide b inW
    omega
  have area : ∀ b, W b → L.inodeAreaStart ≤ b → b = (L.slot n).blockId := by
    intro b inW above
    have := wide b inW
    rw [Layout.inodeAreaStart] at above
    omega
  obtain ⟨state', self, others⟩ := state.evolve here evolved saved low area
  refine ⟨?_, self⟩
  constructor
  case state => exact state'
  case type => rw [self, type]
  case linkCnt => rw [Layout.links, self, linkCnt, Layout.links]
  case marks =>
    refine .of_evolved evolved state.volume.segment fun b inW => ?_
    have := wide b inW
    omega
  case others => exact others
  case lost => exact (state.evolve_kept here ⟨rfl, rfl, rfl, rfl⟩ evolved noLeak saved low area ids).lost

/-- A resize that writes nothing astray but the super block. -/
theorem resized (state : Populated L s live) (here : live n) (file : (L.inode s.blocks n).type = kFile) {newSize : Nat}
    (small : newSize < 4294967296)
    (harmless : Strays (L.inode s.blocks n) newSize → strayTarget newSize = 0)
    (enough : growth (L.inode s.blocks n) newSize ≤ (L.formatted.dataBitmap.freeIds s.blocks).length) {ret : Ret}
    (run : (Inode.resize L.formatted (L.slot n) newSize).run s = (ret, s')) :
    WorkedOn L live n s s' ∧
      Resized L.formatted.dataBitmap newSize (some (L.slot n)) (L.inode s.blocks n) s (L.inode s'.blocks n) s' := by
  have slotId := state.slots n here
  obtain ⟨d', s'', run', resized, base, saved, same⟩ := run_inodeResize rfl file (state.volume.map n here)
    state.volume.segment small enough (Layout.slot_low slotId)
  obtain rfl : s' = s'' := congrArg Prod.snd (run.symm.trans run')
  have apart : Strays (L.inode s.blocks n) newSize → (L.slot n).blockId ≠ strayTarget newSize := by
    intro strays
    have := Layout.slot_area slotId
    rw [harmless strays]
    rw [Layout.inodeAreaStart] at this
    omega
  rw [same apart] at saved
  have wide : ∀ b, ResizeExtra (some (L.slot n)) (L.inode s.blocks n) newSize b → b = (L.slot n).blockId ∨ b = 0 := by
    intro b extra
    cases extra with
    | inl own =>
      obtain ⟨p, is, rfl⟩ := own
      cases is
      exact .inl rfl
    | inr stray => exact .inr (stray.2.trans (harmless stray.1))
  obtain ⟨worked, self⟩ := of_evolved state here resized.evolved wide resized.noLeak saved resized.keeps
    resized.type resized.linkCnt
  rw [self]
  exact ⟨worked, resized⟩

/-- A growth writes nothing astray. -/
theorem noStray_grown {d : DiskInode} {newSize : Nat} (grows : d.size.toNat ≤ newSize) : ¬ Strays d newSize := by
  rintro ⟨-, shrinks⟩
  simp only [dataBlocks] at shrinks
  omega

theorem wrote (state : Populated L s live) (here : live n) {offset len : Nat} (small : offset + len < 2147483648)
    (enough : growth (L.inode s.blocks n) (offset + len) ≤ (L.formatted.dataBitmap.freeIds s.blocks).length)
    {buf : Mem} {ret : Int} (run : (Inode.writeData L.formatted (L.slot n) offset buf len).run s = (ret, s')) :
    WorkedOn L live n s s' ∧ Overwrites L.formatted.dataBitmap (· = (L.slot n).blockId) offset len buf
      (L.inode s.blocks n) s (L.inode s'.blocks n) s' := by
  have low := Layout.slot_low (state.slots n here)
  obtain ⟨d', s'', run', written, saved⟩ := Inode.run_writeData_any rfl low (state.volume.map n here)
    state.volume.segment state.failId small enough buf
  obtain rfl : s' = s'' := congrArg Prod.snd (run.symm.trans run')
  obtain ⟨worked, self⟩ := of_evolved state here written.evolved (fun _ => .inl) written.noLeak saved
    (fun x owns _ => written.keeps x owns) written.type written.linkCnt
  rw [self]
  exact ⟨worked, written⟩

end WorkedOn

theorem GrowRun.workedOn (run : GrowRun L n s s') (state : Populated L s live) (here : live n)
    (file : (L.inode s.blocks n).type = kFile) : WorkedOn L live n s s' := by
  induction run with
  | start => exact .refl state
  | write _ small enough run ih => exact ih.trans (WorkedOn.wrote ih.state here small enough run).1
  | resize _ small grows enough run ih =>
    have noStray := WorkedOn.noStray_grown grows
    exact ih.trans (WorkedOn.resized ih.state here (ih.type.trans file) (by omega) (fun strays => absurd strays noStray)
      enough run).1

/-! ## The round trip -/

/-- What happens to the new inode before it is removed: a file is written and grows. -/
def Between (L : Layout) (n : Nat) (d₀ : DiskInode) (s s' : Disk) : Prop :=
  d₀.type = kFile ∧ GrowRun L n s s' ∨ d₀.type = kDirectory ∧ s' = s

/-- The two bitmaps and directory `a` are what they were. -/
structure Restored (L : Layout) (a : Nat) (s s' : Disk) : Prop where
  inodes : ∀ i, L.formatted.inodeBitmap.Used s'.blocks i ↔ L.formatted.inodeBitmap.Used s.blocks i
  blocks : ∀ b, L.formatted.dataBitmap.Used s'.blocks b ↔ L.formatted.dataBitmap.Used s.blocks b
  size : (L.inode s'.blocks a).size = (L.inode s.blocks a).size
  entries : (L.inode s'.blocks a).entries s'.blocks = (L.inode s.blocks a).entries s.blocks

theorem Between.workedOn (between : Between L n d₀ s s') (state : Populated L s live) (here : live n)
    (type : (L.inode s.blocks n).type = d₀.type) : WorkedOn L live n s s' := by
  cases between with
  | inl file => exact file.2.workedOn state here (type.trans file.1)
  | inr dir =>
    obtain rfl := dir.2
    exact .refl state

/-- A block in use is lost or has an owner. -/
theorem Populated.used_iff (state : Populated L s live) (b : Nat) : L.formatted.dataBitmap.Used s.blocks b ↔
    L.Lost live s b ∨ ∃ j, live j ∧ (L.inode s.blocks j).OwnsBlock s.blocks b := by
  constructor
  · intro used
    by_cases owned : ∃ j, live j ∧ (L.inode s.blocks j).OwnsBlock s.blocks b
    · exact .inr owned
    · exact .inl ⟨used, fun j there own => owned ⟨j, there, own⟩⟩
  · rintro (lost | ⟨j, there, own⟩)
    · exact lost.1
    · exact (state.volume.map j there).ownsUsed own

/-- The entry that was appended last is found at the end. -/
theorem index_of_absent {es : List (Name × Nat)} {x : Nat} (absent : ∀ y, (name, y) ∉ es) {e : Nat}
    (entry : (es ++ [(name, n)])[e]? = some (name, x)) : e = es.length ∧ x = n := by
  by_cases inside : e < es.length
  · rw [List.getElem?_append_left inside] at entry
    exact absurd (List.mem_of_getElem? entry) (absent x)
  · rw [List.getElem?_append_right (Nat.le_of_not_lt inside)] at entry
    have only := List.mem_singleton.mp (List.mem_of_getElem? entry)
    have small := (List.getElem?_eq_some_iff.mp entry).1
    rw [List.length_singleton] at small
    exact ⟨by omega, congrArg Prod.snd only⟩

/-- `create` with a free inode and enough blocks. -/
theorem Populated.create_kept (state : Populated L s live) (here : live a) (ok : Searchable L a s)
    (absent : ∀ x, (name, x) ∉ (L.inode s.blocks a).entries s.blocks) (proper : ProperName name) (empty : d₀.Empty)
    (marked : ∀ j, live j → L.formatted.inodeBitmap.Used s.blocks j)
    (head : (L.formatted.inodeBitmap.freeIds s.blocks).head? = some n) (slotId : L.SlotId n)
    (enough : growth (L.inode s.blocks a) ((L.inode s.blocks a).size.toNat + 256) + newBlocks d₀ ≤
      (L.formatted.dataBitmap.freeIds s.blocks).length) :
    ∃ s₁, (Inode.create L.formatted (L.slot a) name d₀).run s = ((.kSuccess, some (L.slot n)), s₁) ∧
      (∀ i, L.formatted.inodeBitmap.Used s₁.blocks i ↔ L.formatted.inodeBitmap.Used s.blocks i ∨ i = n) ∧
      Created L live a name n d₀ s s₁ ∧ BlocksKept L live (fun j => live j ∨ j = n) a s s₁ := by
  have off : L.formatted.inodeBitmap.freeIds s.blocks = [] → s.count ≤ (L.slot kFailId).blockId := by
    intro full
    rw [full] at head
    cases head
  have inside : ∀ m, (L.formatted.inodeBitmap.freeIds s.blocks).head? = some m → L.SlotId m := by
    intro m head'
    rw [head] at head'
    exact Option.some.inj head' ▸ slotId
  obtain ⟨r, s₁, run, bits, result⟩ := state.run_create here ok absent proper empty marked off inside
  obtain ⟨r', s₁', run', -, -, kept⟩ := state.run_create_blocks here ok.dir.type ok.dir.aligned
    (by have := ok.small; omega) proper.noZero empty marked off inside
  cases run.symm.trans run'
  cases result with
  | failed _ _ cause =>
    cases cause with
    | inl full =>
      rw [full] at head
      cases head
    | inr short => omega
  | @done m head' created =>
    obtain rfl : n = m := Option.some.inj (head.symm.trans head')
    refine ⟨s₁, run, fun i => ?_, created, kept rfl n head⟩
    rw [bits, head, Option.some.injEq, eq_comm]

/-- `remove` of the entry that was appended last, with the last name of its inode. -/
theorem Populated.remove_kept (state : Populated L s live) (here : live a) (ok : Searchable L a s)
    (few : ((L.inode s.blocks a).entries s.blocks).length ≤ 33152) (proper : ProperName name)
    {es : List (Name × Nat)} (entries : (L.inode s.blocks a).entries s.blocks = es ++ [(name, n)])
    (absent : ∀ x, (name, x) ∉ es) (there : live n) (ne : n ≠ a) (marked : L.formatted.inodeBitmap.Used s.blocks n)
    (last : L.links s.blocks n = 1) :
    ∃ s', (Inode.remove L.formatted (L.slot a) name).run s = (.kSuccess, s') ∧
      Edited L (fun j => live j ∧ j ≠ n) a es (L.links s.blocks) s s' ∧
      (∀ i, L.formatted.inodeBitmap.Used s'.blocks i ↔ L.formatted.inodeBitmap.Used s.blocks i ∧ i ≠ n) ∧
      BlocksKept L live (fun j => live j ∧ j ≠ n) a s s' := by
  have bound : (name, n) ∈ (L.inode s.blocks a).entries s.blocks := by
    rw [entries]
    exact List.mem_append_right _ (List.mem_singleton_self _)
  obtain ⟨r, d, s₁, run, retimed, quiet, answers, -⟩ := state.run_scan here ok proper
  cases answers with
  | failed unbound => exact absurd bound (unbound n)
  | absent unbound => exact absurd bound (unbound n)
  | @found i j x low entry =>
    have place := index_of_absent absent (entries ▸ entry)
    obtain rfl := place.2
    obtain ⟨s', remove, edited, bits, -, kept⟩ := state.run_remove_last here ok few there ne marked run retimed quiet low
      entry last
    rw [entries, place.1, removeAt_last (by simp), List.dropLast_concat] at edited
    exact ⟨s', remove, edited, bits, kept⟩

/-- `create`, calls that let the new inode grow, and `remove` leave the bitmaps and the directory as
they were. -/
theorem create_remove_restores (L : Layout) (state : Populated L s live)
    (marked : ∀ j, live j → L.formatted.inodeBitmap.Used s.blocks j) (here : live a)
    (dir : IsDirectory (L.inode s.blocks a) s.blocks) (few : ((L.inode s.blocks a).entries s.blocks).length ≤ 32768)
    (proper : ProperName name) (absent : ∀ x, (name, x) ∉ (L.inode s.blocks a).entries s.blocks) (empty : d₀.Empty)
    (one : d₀.linkCnt = 1) (head : (L.formatted.inodeBitmap.freeIds s.blocks).head? = some n) (slotId : L.SlotId n)
    (enough : growth (L.inode s.blocks a) ((L.inode s.blocks a).size.toNat + 256) + newBlocks d₀ ≤
      (L.formatted.dataBitmap.freeIds s.blocks).length) :
    ∃ s₁, (Inode.create L.formatted (L.slot a) name d₀).run s = ((.kSuccess, some (L.slot n)), s₁) ∧
      ∀ s₂, Between L n d₀ s₁ s₂ → ∃ s', (Inode.remove L.formatted (L.slot a) name).run s₂ = (.kSuccess, s') ∧
        Restored L a s s' := by
  obtain ⟨s₁, create, bits₁, created, kept₁⟩ := state.create_kept here ⟨dir, by omega⟩ absent proper empty marked head
    slotId enough
  refine ⟨s₁, create, fun s₂ between => ?_⟩
  have free : ¬ L.formatted.inodeBitmap.Used s.blocks n :=
    fun used => (Bitmap.used_iff.mp used).2 (List.mem_of_head? head)
  have ne : ∀ j, live j → j ≠ n := by
    rintro j there rfl
    exact free (marked j there)
  -- the file in between
  have worked := between.workedOn created.state (.inr rfl) created.new.type
  have same := fun j (there : live j) => worked.others j (.inl there) (ne j there)
  have selfA := Recounted.of_sameFile (same a here)
  have entries₂ := selfA.entries.trans created.edited.entries
  have dir₂ := selfA.isDirectory created.edited.dir
  have length₂ : ((L.inode s₂.blocks a).entries s₂.blocks).length =
      ((L.inode s.blocks a).entries s.blocks).length + 1 := by
    rw [entries₂, List.length_append, List.length_singleton]
  obtain ⟨s', remove, edited, bits, kept⟩ := worked.state.remove_kept (.inl here) ⟨dir₂, by omega⟩ (by omega) proper entries₂
    absent (.inr rfl) (ne a here).symm ((worked.marks.used n).mpr ((bits₁ n).mpr (.inr rfl)))
    (worked.linkCnt.trans (created.new.linkCnt.trans one))
  refine ⟨s', remove, ?_⟩
  have again : (fun j => (live j ∨ j = n) ∧ j ≠ n) = live := funext fun j => propext
    ⟨fun both => both.1.resolve_right both.2, fun there => ⟨.inl there, ne j there⟩⟩
  rw [again] at edited kept
  have size : (L.inode s'.blocks a).size = (L.inode s.blocks a).size :=
    UInt32.toNat_inj.mp (edited.dir.aligned.trans ((congrArg _ (congrArg _ edited.entries)).trans dir.aligned.symm))
  -- the owners have what they had
  have owners : ∀ j, live j → ∀ b, (L.inode s'.blocks j).OwnsBlock s'.blocks b ↔
      (L.inode s.blocks j).OwnsBlock s.blocks b := by
    intro j there
    by_cases is : j = a
    · subst is
      refine Evolved.ownsBlock_iff size fun x owns => ?_
      have owns₁ : (L.inode s₁.blocks j).Owns x := by
        refine Slot.Valid.mono ?_ owns
        rw [created.edited.dir.aligned, created.edited.entries, dir.aligned, List.length_append, List.length_singleton]
        simp only [dataBlocks]
        omega
      have owns₂ : (L.inode s₂.blocks j).Owns x := selfA.owns ▸ owns₁
      have owns' : (L.inode s'.blocks j).Owns x := by rwa [DiskInode.Owns, size]
      exact (kept.ids x owns₂ owns').trans (((same j here).ids x owns₁).trans (kept₁.ids x owns owns₁))
    · have chain := ((created.edited.others j there is).trans (.of_sameFile (same j there))).trans
        (edited.others j there is)
      exact Evolved.ownsBlock_iff chain.size chain.ids
  constructor
  case inodes =>
    intro i
    rw [bits, worked.marks.used, bits₁]
    constructor
    · exact fun both => both.1.resolve_right both.2
    · rintro used
      exact ⟨.inl used, fun is => free (is ▸ used)⟩
  case blocks =>
    intro b
    rw [edited.state.used_iff, state.used_iff, kept.lost, worked.lost, kept₁.lost]
    exact or_congr_right (exists_congr fun j => and_congr_right fun there => owners j there b)
  case size => exact size
  case entries => exact edited.entries

end

/-! ### A file of one byte -/

theorem loneDisk_unused (b : Nat) : ¬ Layout.default.formatted.dataBitmap.Used loneDisk.blocks b := by
  rintro ⟨⟨lower, upper⟩, set⟩
  have bits := Layout.default.formatted.dataBitmap.setBits_add_free loneDisk.blocks
  have capacity : Layout.default.formatted.dataBitmap.capacity = 4161536 := by decide
  rw [loneDisk_blocks, capacity, Nat.add_eq_right] at bits
  exact List.countP_eq_zero.mp bits _ (List.mem_range.mpr (by omega)) set

/-- After `create` of a file there are free blocks left. -/
theorem loneDisk_createFile : ∃ s₁,
    (Inode.create Layout.default.formatted (Layout.default.slot 2) [102] emptyFile).run loneDisk =
      ((.kSuccess, some (Layout.default.slot 3)), s₁) ∧
    Layout.default.inode s₁.blocks 3 = emptyFile ∧
    1 ≤ (Layout.default.formatted.dataBitmap.freeIds s₁.blocks).length := by
  have grown : growth loneDirectory 256 + newBlocks emptyFile = 1 := by decide
  have proper : ProperName [102] := .of_all (by decide) (by decide) rfl
  obtain ⟨s₁, create, -, created, kept⟩ := loneDisk_state.state.create_kept (a := 2) (n := 3) rfl
    ⟨loneDisk_state.dir, by rw [loneDisk_entries]; decide⟩ (by rw [loneDisk_entries]; exact fun x => List.not_mem_nil)
    proper emptyFile_empty (fun j is => (loneDisk_used j).mpr is) loneDisk_head ⟨by decide, by decide⟩ (by
      rw [loneDisk_inode, loneDisk_blocks]
      exact (Nat.le_of_eq grown).trans (by decide))
  have file : Layout.default.inode s₁.blocks 3 = emptyFile := created.new.file (by decide)
  refine ⟨s₁, create, file, ?_⟩
  -- the one block in use is that of the directory
  have only : ∀ b, Layout.default.formatted.dataBitmap.Used s₁.blocks b →
      b = (Layout.default.inode s₁.blocks 2).slotId s₁.blocks (.data 0) := by
    intro b used
    rcases (created.state.used_iff b).mp used with lost | ⟨j, rfl | rfl, x, owns, rfl⟩
    · exact absurd ((kept.lost b).mp lost).1 (loneDisk_unused b)
    · have size := created.edited.dir.aligned
      rw [created.edited.entries, loneDisk_entries] at size
      rw [DiskInode.Owns, size] at owns
      cases x <;> simp [Slot.Valid, dataBlocks] at owns
      rw [owns]
    · rw [file] at owns
      exact absurd owns (emptyFile_empty.not_owns x)
  by_contra full
  have none : Layout.default.formatted.dataBitmap.freeIds s₁.blocks = [] :=
    List.length_eq_zero_iff.mp (by omega)
  have used : ∀ b, 1153 ≤ b → b < 1155 → Layout.default.formatted.dataBitmap.Used s₁.blocks b := by
    intro b lower upper
    refine Bitmap.used_iff.mpr ⟨?_, none ▸ List.not_mem_nil⟩
    rw [Layout.dataBitmap_eq]
    exact ⟨lower, upper.trans (by decide)⟩
  have both := (only 1153 (used 1153 (by decide) (by decide))).trans (only 1154 (used 1154 (by decide) (by decide))).symm
  exact absurd both (by decide)

/-- A file gets one byte and is removed. -/
theorem create_remove_restores_oneByte : ∃ s₁ s₂ s',
    (Inode.create Layout.default.formatted (Layout.default.slot 2) [102] emptyFile).run loneDisk =
      ((.kSuccess, some (Layout.default.slot 3)), s₁) ∧
    ((Inode.writeData Layout.default.formatted (Layout.default.slot 3) 0 (fun _ => 7) 1).run s₁).2 = s₂ ∧
    (Inode.remove Layout.default.formatted (Layout.default.slot 2) [102]).run s₂ = (.kSuccess, s') ∧
    Restored .default 2 loneDisk s' := by
  have grown : growth loneDirectory 256 + newBlocks emptyFile = 1 := by decide
  have proper : ProperName [102] := .of_all (by decide) (by decide) rfl
  obtain ⟨s₁, create, restores⟩ := create_remove_restores .default (a := 2) (n := 3) loneDisk_state.state
    (fun j is => (loneDisk_used j).mpr is) rfl loneDisk_state.dir (by rw [loneDisk_entries]; decide) proper
    (by rw [loneDisk_entries]; exact fun x => List.not_mem_nil) emptyFile_empty rfl loneDisk_head ⟨by decide, by decide⟩ (by
      rw [loneDisk_inode, loneDisk_blocks]
      exact (Nat.le_of_eq grown).trans (by decide))
  obtain ⟨s₁', create', file, room⟩ := loneDisk_createFile
  obtain rfl : s₁ = s₁' := congrArg Prod.snd (create.symm.trans create')
  have one : growth emptyFile (0 + 1) = 1 := by decide
  have wrote : GrowRun .default 3 s₁
      ((Inode.writeData Layout.default.formatted (Layout.default.slot 3) 0 (fun _ => 7) 1).run s₁).2 :=
    .write .start (show 0 + 1 < 2147483648 by decide) (by rw [file, one]; exact room) rfl
  obtain ⟨s', remove, restored⟩ := restores _ (.inl ⟨rfl, wrote⟩)
  exact ⟨s₁, _, s', create, rfl, remove, restored⟩

end Sbfs
