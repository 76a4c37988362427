import Sbfs.Linking

/-! # `create` and `remove`

The two methods that take an inode into use or give one up, with its blocks.  While `create`
runs, the directory and the new inode exist in memory only; the disk has them after the last
two writes (`Created`). -/

namespace Sbfs

open Slot PackedMap

theorem DiskInode.Empty.map {bm : Bitmap} {d : DiskInode} {D : Nat → Block} (empty : d.Empty) :
    WellMapped bm d D := by
  constructor
  case closed => exact closed_valid _
  case used => exact fun x owns => absurd owns (empty.not_owns x)
  case inj => exact fun x y owns => absurd owns (empty.not_owns x)
  case no1 => exact fun _ => empty.one
  case no2 => exact fun _ => empty.two

/-- The constructor of `DiskInode`. -/
theorem DiskInode.run_new (type : DiskInodeType) (uid gid : UInt16) (s : Disk) :
    ∃ d s', (DiskInode.new type uid gid).run s = (d, s') ∧ Touches (fun _ => False) s s' ∧ d.Empty ∧ d.type = type ∧
      d.linkCnt = 1 :=
  ⟨_, _, rfl, .trans (.tick _ _) (.trans (.tick _ _) (.tick _ _)), ⟨rfl, rfl, rfl, rfl⟩, rfl, rfl⟩

/-- An empty inode joins the others. -/
theorem Volume.insert {bm : Bitmap} {s : Disk} {live : Nat → Prop} {ino : Nat → DiskInode} {n : Nat} {d : DiskInode}
    (vol : Volume bm s live ino) (fresh : ¬ live n) (empty : d.Empty) :
    Volume bm s (fun j => live j ∨ j = n) (Function.update ino n d) := by
  refine vol.congr (fun j there _ => ?_) fun j there new => ?_
  · rw [Function.update_of_ne]
    rintro rfl
    exact fresh there
  · rw [there.resolve_left new, Function.update_self]
    exact ⟨empty.map, empty.not_owns⟩

section

variable {L : Layout} {s s₁ s₂ s₃ s' : Disk} {live : Nat → Prop} {a n : Nat} {d₀ d₂ d₃ : DiskInode} {name : Name}

/-- The blocks that a new inode takes do not disturb the others, whether it is saved or not. -/
theorem Populated.beside (state : Populated L s live) (fresh : ¬ live n) (empty : d₀.Empty)
    (evolved : Evolved L.formatted.dataBitmap (fun _ => False) d₀ s d₃ s') :
    Populated L s' live ∧ ∀ j, live j → SameFile L j s s' := by
  have vol := state.volume.insert fresh empty
  have step : Evolved L.formatted.dataBitmap (fun _ => False) (Function.update (L.inode s.blocks) n d₀ n) s d₃ s' := by
    rw [Function.update_self]
    exact evolved
  have kept : ∀ j, live j → L.inode s'.blocks j = L.inode s.blocks j := fun j there =>
    Layout.inode_kept (state.slots j there) evolved state.volume.segment
  have ne : ∀ j, live j → j ≠ n := by
    rintro j there rfl
    exact fresh there
  refine ⟨⟨evolved.touches.count ▸ state.device, evolved.touches.count ▸ state.failId, state.slots, ?_⟩,
    fun j there => ?_⟩
  · refine (vol.evolve (.inr rfl) step fun _ => False.elim).congr (fun j _ there => ?_) fun j there out =>
      absurd (.inl there) out
    rw [Function.update_of_ne (ne j there), Function.update_of_ne (ne j there), kept j there]
  · have same := vol.unmoved (.inr rfl) step (fun _ => False.elim) (.inl there) (ne j there)
    rw [Function.update_of_ne (ne j there)] at same
    exact (same.recounted (kept j there)).sameFile

/-- The inodes of `create` before the last two writes. -/
def createdInodes (L : Layout) (s : Disk) (a : Nat) (d₂ : DiskInode) (n : Nat) (d₃ : DiskInode) : Nat → DiskInode :=
  Function.update (Function.update (L.inode s.blocks) a d₂) n d₃

/-- The directory grows, and then the new inode does. -/
theorem Populated.grow_both (state : Populated L s₁ live) (here : live a) (fresh : ¬ live n) (empty : d₀.Empty)
    (first : Evolved L.formatted.dataBitmap (fun _ => False) (L.inode s₁.blocks a) s₁ d₂ s₂)
    (second : Evolved L.formatted.dataBitmap (fun _ => False) d₀ s₂ d₃ s₃) :
    Volume L.formatted.dataBitmap s₃ (fun j => live j ∨ j = n) (createdInodes L s₁ a d₂ n d₃) ∧
      Unmoved d₂ s₂ s₃ ∧ ∀ j, live j → j ≠ a → Unmoved (L.inode s₁.blocks j) s₁ s₃ := by
  have ne : ∀ j, live j → j ≠ n := by
    rintro j there rfl
    exact fresh there
  have vol := (state.volume.evolve here first fun _ => False.elim).insert fresh empty
  have step : Evolved L.formatted.dataBitmap (fun _ => False)
      (Function.update (Function.update (L.inode s₁.blocks) a d₂) n d₀ n) s₂ d₃ s₃ := by
    rw [Function.update_self]
    exact second
  have moved := fun j there => vol.unmoved (.inr rfl) step (fun _ => False.elim) (.inl there) (ne j there)
  refine ⟨?_, ?_, fun j there other => ?_⟩
  · have grown := vol.evolve (.inr rfl) step fun _ => False.elim
    rwa [Function.update_idem] at grown
  · have self := moved a here
    rwa [Function.update_of_ne (ne a here), Function.update_self] at self
  · have rest := moved j there
    rw [Function.update_of_ne (ne j there), Function.update_of_ne other] at rest
    exact (state.volume.unmoved here first (fun _ => False.elim) there other).trans rest

/-- What they take is theirs. -/
theorem Populated.grow_both_lost (state : Populated L s₁ live) (here : live a) (fresh : ¬ live n) (empty : d₀.Empty)
    (first : Evolved L.formatted.dataBitmap (fun _ => False) (L.inode s₁.blocks a) s₁ d₂ s₂)
    (firstNoLeak : NoLeak L.formatted.dataBitmap (L.inode s₁.blocks a) s₁ d₂ s₂)
    (second : Evolved L.formatted.dataBitmap (fun _ => False) d₀ s₂ d₃ s₃)
    (secondNoLeak : NoLeak L.formatted.dataBitmap d₀ s₂ d₃ s₃) (b : Nat) :
    Lost L.formatted.dataBitmap s₃.blocks (fun j => live j ∨ j = n) (createdInodes L s₁ a d₂ n d₃) b ↔
      L.Lost live s₁ b := by
  have vol := (state.volume.evolve here first fun _ => False.elim).insert fresh empty
  have taken := state.volume.evolve_lost here first (fun _ => False.elim) firstNoLeak b
  have inserted : Lost L.formatted.dataBitmap s₂.blocks (fun j => live j ∨ j = n)
      (Function.update (Function.update (L.inode s₁.blocks) a d₂) n d₀) b ↔
      Lost L.formatted.dataBitmap s₂.blocks live (Function.update (L.inode s₁.blocks) a d₂) b := by
    refine Volume.congr_lost (fun j there _ => ?_) (fun j there out => absurd (.inl there) out) (fun j there new => ?_) b
    · rw [Function.update_of_ne]
      rintro rfl
      exact fresh there
    · rw [there.resolve_left new, Function.update_self]
      exact empty.not_owns
  have self : Function.update (Function.update (L.inode s₁.blocks) a d₂) n d₀ n = d₀ := Function.update_self _ _ _
  have grown := vol.evolve_lost (.inr rfl) (by rw [self]; exact second) (fun _ => False.elim)
    (by rw [self]; exact secondNoLeak) b
  rw [Function.update_idem] at grown
  exact grown.trans (inserted.trans taken)

/-- The last two writes of `create`. -/
theorem run_save_both (slotA : L.SlotId a) (slotN : L.SlotId n) {ino : Nat → DiskInode}
    (vol : Volume L.formatted.dataBitmap s₃ (fun j => live j ∨ j = n) ino) (slots : ∀ j, live j → L.SlotId j)
    (self : ino a = d₂) (new : ino n = d₃)
    (others : ∀ j, live j → j ≠ a → j ≠ n → ino j = L.inode s₃.blocks j) :
    ∃ s₄ s', (writeInode (L.slot n) d₃).run s₃ = (.kSuccess, s₄) ∧
      (writeInode (L.slot a) d₂).run s₄ = (.kSuccess, s') ∧ SameMarks L s₃ s' ∧
      Touches (fun b => b < L.formatted.dataBitmap.startBlockId) s₃ s' ∧
      Volume L.formatted.dataBitmap s' (fun j => live j ∨ j = n) (L.inode s'.blocks) ∧
      ∀ j, live j ∨ j = n → L.inode s'.blocks j = ino j ∧ Unmoved (ino j) s₃ s' := by
  have onDevice : ∀ j, L.SlotId j → (L.slot j).blockId < s₃.count := by
    intro j slotId
    have := Layout.slot_low slotId
    have := vol.segment.onDevice
    have := vol.segment.after
    omega
  obtain ⟨s₄, runN, touchesN, savedN⟩ := run_writeInode_saved d₃ (onDevice n slotN)
  obtain ⟨s', runA, touchesA, savedA⟩ := run_writeInode_saved d₂ (touchesN.count ▸ onDevice a slotA)
  have touches : Touches (fun b => b = (L.slot n).blockId ∨ b = (L.slot a).blockId) s₃ s' :=
    (touchesN.mono fun _ => .inl).trans (touchesA.mono fun _ => .inr)
  have low : Touches (fun b => b < L.formatted.dataBitmap.startBlockId) s₃ s' := by
    refine touches.mono fun b either => ?_
    cases either with
    | inl same => exact same ▸ Layout.slot_low slotN
    | inr same => exact same ▸ Layout.slot_low slotA
  have marks : SameMarks L s₃ s' := by
    refine .of_touches touches fun b either => .inr ?_
    cases either with
    | inl same => exact same ▸ Layout.slot_area slotN
    | inr same => exact same ▸ Layout.slot_area slotA
  have inodes : ∀ j, live j ∨ j = n → L.inode s'.blocks j = ino j := by
    intro j there
    have slotId : L.SlotId j := by
      cases there with
      | inl old => exact slots j old
      | inr is => exact is ▸ slotN
    rw [Layout.inode_save slotA slotId savedA touchesA, Layout.inode_save slotN slotId savedN touchesN]
    by_cases isA : j = a
    · rw [if_pos isA, isA, self]
    · rw [if_neg isA]
      by_cases isN : j = n
      · rw [if_pos isN, isN, new]
      · rw [if_neg isN, others j (there.resolve_right isN) isA isN]
  refine ⟨s₄, s', runN, runA, marks, low, ?_, fun j there =>
    ⟨inodes j there, vol.below_unmoved low there⟩⟩
  exact (vol.below low).congr (fun j there _ => inodes j there) fun j there out => absurd there out

/-! ## The parts of `create` -/

theorem run_writeInode_off {pos : Position} {s : Disk} (d : DiskInode) (off : s.count ≤ pos.blockId) :
    (writeInode pos d).run s = (.kFail, s) := by
  simp only [writeInode, DevProg.run_bind, DevProg.run_readBlk_of_ge off, DevProg.run_pure]

/-- Where `alloc_inode` puts an inode: the first clear bit, or off the device. -/
structure Assigned (L : Layout) (s : Disk) (n : Nat) (s₁ : Disk) : Prop where
  place : (L.formatted.inodeBitmap.freeIds s.blocks).head? = some n ∨
    L.formatted.inodeBitmap.freeIds s.blocks = [] ∧ n = kFailId
  bits : ∀ i, L.formatted.inodeBitmap.Used s₁.blocks i ↔
    L.formatted.inodeBitmap.Used s.blocks i ∨ (L.formatted.inodeBitmap.freeIds s.blocks).head? = some i
  touches : Touches (fun b => b < L.inodeAreaStart) s s₁

theorem Populated.inodeBitmap_fits (state : Populated L s live) : L.formatted.inodeBitmap.Fits s.count := by
  have device := state.device
  have room := L.someData
  have total := L.total32
  simp only [Layout.areaEnd, Layout.dataAreaStart, Layout.dataBitmapStart] at device
  rw [Layout.inodeBitmap_eq]
  constructor <;> simp only <;> omega

theorem Populated.run_allocInode (state : Populated L s live)
    (inside : ∀ n, (L.formatted.inodeBitmap.freeIds s.blocks).head? = some n → L.SlotId n) :
    ∃ n s₁, L.formatted.allocInode.run s = (n, s₁) ∧ Assigned L s n s₁ := by
  have fits := state.inodeBitmap_fits
  cases free : L.formatted.inodeBitmap.freeIds s.blocks with
  | nil =>
    refine ⟨kFailId, s, Bitmap.run_alloc_full fits free, .inr ⟨free, rfl⟩, fun i => ?_, .refl _ _⟩
    rw [free, List.head?_nil, or_iff_left (by simp)]
  | cons n rest =>
    rw [free, List.head?_cons] at inside
    obtain ⟨s₁, run, left, touches⟩ := Bitmap.run_alloc_id fits free (inside n rfl).2
    have nodup : (n :: rest).Nodup := free ▸ Bitmap.nodup_freeIds
    refine ⟨n, s₁, run, .inl (by rw [free, List.head?_cons]), fun i => ?_,
      touches.mono fun b holds => (Layout.marks_between holds).2⟩
    have there : n ∈ L.formatted.inodeBitmap.freeIds s.blocks := free ▸ List.mem_cons_self
    rw [Bitmap.used_iff, Bitmap.used_iff, left, free, List.head?_cons, List.mem_cons, Option.some.injEq]
    by_cases same : i = n
    · rw [same]
      exact ⟨fun _ => .inr rfl, fun _ => ⟨(Bitmap.mem_freeIds.mp there).1, (List.nodup_cons.mp nodup).1⟩⟩
    · constructor
      · exact fun used => .inl ⟨used.1, fun either => either.elim same used.2⟩
      · intro either
        cases either with
        | inl used => exact ⟨used.1, fun member => used.2 (.inr member)⟩
        | inr is => exact absurd is.symm same

/-- What `create` makes of the `DiskInode` of its caller. -/
structure NewInode (n a : Nat) (d₀ d : DiskInode) (s : Disk) : Prop where
  type : d.type = d₀.type
  linkCnt : d.linkCnt = d₀.linkCnt
  file : d₀.type ≠ kDirectory → d = d₀
  dots : d₀.type = kDirectory → IsDirectory d s.blocks ∧ d.entries s.blocks = [([46], n), ([46, 46], a)]

theorem IsDirectory.dots {d : DiskInode} {D : Nat → Block} (type : d.type = kDirectory) (size : d.size.toNat = 512)
    (entries : d.entries D = [([46], n), ([46, 46], a)]) : IsDirectory d D := by
  constructor
  case type => exact type
  case aligned =>
    rw [size, entries]
    rfl
  case names =>
    rw [entries]
    intro x member
    rcases List.mem_pair.mp member with rfl | rfl
    · exact dot_proper
    · exact dotdot_proper
  case distinct =>
    rw [entries]
    exact (by decide : ([[46], [46, 46]] : List Name).Nodup)

theorem IsDirectory.unmoved {d : DiskInode} (dir : IsDirectory d s.blocks) (same : Unmoved d s s') :
    IsDirectory d s'.blocks := by
  have entries := same.entries
  constructor
  case type => exact dir.type
  case aligned =>
    rw [entries]
    exact dir.aligned
  case names =>
    rw [entries]
    exact dir.names
  case distinct =>
    rw [entries]
    exact dir.distinct

theorem NewInode.unmoved {d : DiskInode} (new : NewInode n a d₀ d s) (same : Unmoved d s s') :
    NewInode n a d₀ d s' where
  type := new.type
  linkCnt := new.linkCnt
  file := new.file
  dots := fun isDir => ⟨(new.dots isDir).1.unmoved same, same.entries.trans (new.dots isDir).2⟩

/-- The blocks that a new inode needs. -/
def newBlocks (d₀ : DiskInode) : Nat := if d₀.type = kDirectory then 1 else 0

theorem run_newInode {fs : SBFileSystem} (segment : fs.dataBitmap.Segment s₂.count) (failId : s₂.count ≤ kFailId)
    (empty : d₀.Empty) (small : a < 4294967296) (n : Nat) :
    ∃ ret d₃ s₃, (if d₀.type = kDirectory then Inode.createDots fs d₀ n a else pure (.kSuccess, d₀)).run s₂ =
        ((ret, d₃), s₃) ∧ Dropped fs.dataBitmap d₀ s₂ s₃ ∧
      (ret = .kSuccess → Evolved fs.dataBitmap (fun _ => False) d₀ s₂ d₃ s₃ ∧ NoLeak fs.dataBitmap d₀ s₂ d₃ s₃ ∧
        (n < 4294967296 → NewInode n a d₀ d₃ s₃)) ∧
      (newBlocks d₀ ≤ (fs.dataBitmap.freeIds s₂.blocks).length → ret = .kSuccess) ∧
      (ret = .kSuccess → newBlocks d₀ + (fs.dataBitmap.freeIds s₃.blocks).length =
        (fs.dataBitmap.freeIds s₂.blocks).length) := by
  by_cases isDir : d₀.type = kDirectory
  · have size : d₀.size.toNat = 0 := by
      rw [empty.size]
      rfl
    have one : growth d₀ (256 * (0 + 2)) = newBlocks d₀ := by
      rw [growth_direct (by decide), newBlocks, if_pos isDir, size]
      rfl
    obtain ⟨ret, d₃, s₃, run, extended⟩ := Inode.run_createDots_any empty.map segment failId size n a
    rw [if_pos isDir]
    refine ⟨ret, d₃, s₃, run, extended.dropped, fun success => ?_, fun enough => extended.enough (by rwa [one]),
      fun success => one ▸ extended.free success⟩
    have written := extended.written success
    refine ⟨written.evolved, written.noLeak, fun small' =>
      ⟨written.type, written.linkCnt, fun file => absurd isDir file, fun _ => ?_⟩⟩
    have entries := Overwrites.entries_append (m := 0) (k := 2) written size
    have none : d₀.entries s₂.blocks = [] := by
      rw [DiskInode.entries_of_size (m := 0) size]
      rfl
    rw [none, List.nil_append, entriesIn_dotEntries small' small] at entries
    exact ⟨.dots (written.type.trans isDir) (by rw [written.size, size]; rfl) entries, entries⟩
  · rw [if_neg isDir]
    refine ⟨.kSuccess, d₀, s₂, rfl, ⟨.refl empty.map, fun _ _ => rfl, fun _ _ => rfl⟩, fun _ => ⟨.refl empty.map,
      .of_same (fun _ => Iff.rfl) (fun _ => Iff.rfl), fun _ => ⟨rfl, rfl, fun _ => rfl, fun dir => absurd dir isDir⟩⟩,
      fun _ => rfl, fun _ => ?_⟩
    rw [newBlocks, if_neg isDir, Nat.zero_add]

/-! ## `create` -/

/-- `create` has bound `name` to the new inode `n`. -/
structure Created (L : Layout) (live : Nat → Prop) (a : Nat) (name : Name) (n : Nat) (d₀ : DiskInode)
    (s s' : Disk) : Prop where
  state : Populated L s' fun j => live j ∨ j = n
  edited : Edited L live a ((L.inode s.blocks a).entries s.blocks ++ [(name, n)]) (L.links s.blocks) s s'
  new : NewInode n a d₀ (L.inode s'.blocks n) s'

/-- How `create` ends. -/
inductive CreateResult (L : Layout) (live : Nat → Prop) (a : Nat) (name : Name) (d₀ : DiskInode) (s s' : Disk) :
    Ret × Option Position → Prop where
  | done {n : Nat} (free : (L.formatted.inodeBitmap.freeIds s.blocks).head? = some n)
      (created : Created L live a name n d₀ s s') : CreateResult L live a name d₀ s s' (.kSuccess, some (L.slot n))
  | failed {p : Option Position} (state : Populated L s' live) (same : ∀ j, live j → SameFile L j s s')
      (cause : L.formatted.inodeBitmap.freeIds s.blocks = [] ∨ (L.formatted.dataBitmap.freeIds s.blocks).length <
        growth (L.inode s.blocks a) ((L.inode s.blocks a).size.toNat + 256) + newBlocks d₀) :
      CreateResult L live a name d₀ s s' (.kFail, p)

/-- Both inodes are dropped. -/
theorem Populated.create_dropped (state : Populated L s₁ live) (here : live a) (fresh : ¬ live n) (empty : d₀.Empty)
    (first : Dropped L.formatted.dataBitmap (L.inode s₁.blocks a) s₁ s₂)
    (second : Dropped L.formatted.dataBitmap d₀ s₂ s₃) :
    Populated L s₃ live ∧ SameMarks L s₁ s₃ ∧ ∀ j, live j → SameFile L j s₁ s₃ := by
  obtain ⟨state₂, same₂⟩ := state.dropped here first
  obtain ⟨state₃, same₃⟩ := state₂.beside fresh empty second.evolved
  have marks : SameMarks L s₁ s₃ := .trans (.of_evolved first.evolved state.volume.segment fun _ => False.elim)
    (.of_evolved second.evolved state₂.volume.segment fun _ => False.elim)
  exact ⟨state₃, marks, fun j there => (same₂ j there).trans (same₃ j there)⟩

/-- Directory `a` has one entry more. -/
structure Stored (L : Layout) (live : Nat → Prop) (a : Nat) (x : Name × Nat) (s s' : Disk) : Prop where
  type : (L.inode s'.blocks a).type = (L.inode s.blocks a).type
  linkCnt : L.links s'.blocks a = L.links s.blocks a
  size : (L.inode s'.blocks a).size.toNat = 256 * ((L.inode s.blocks a).entries s.blocks ++ [x]).length
  entries : (L.inode s'.blocks a).entries s'.blocks = (L.inode s.blocks a).entries s.blocks ++ [x]
  others : ∀ j, live j → j ≠ a → Recounted L j (L.links s.blocks j) s s'

theorem Stored.after {x : Name × Nat} (same : ∀ j, live j → SameFile L j s s₁) (here : live a)
    (stored : Stored L live a x s₁ s') : Stored L live a x s s' := by
  have self := Recounted.of_sameFile (same a here)
  have links : ∀ j, live j → L.links s₁.blocks j = L.links s.blocks j := fun j there => by
    rw [Layout.links, Layout.links, (same j there).inode]
  have entries := self.entries
  constructor
  case type => rw [stored.type, self.inode]
  case linkCnt => rw [stored.linkCnt, links a here]
  case size => rw [stored.size, entries]
  case entries => rw [stored.entries, entries]
  case others =>
    intro j there other
    have rest := stored.others j there other
    rw [links j there] at rest
    exact (Recounted.of_sameFile (same j there)).trans rest

/-- Both inodes are saved. -/
theorem Populated.create_saved (state : Populated L s₁ live) (here : live a) (fresh : ¬ live n) (slotN : L.SlotId n)
    (empty : d₀.Empty) {x : Name × Nat}
    (first : Reworked L.formatted.dataBitmap (fun _ => False) ((L.inode s₁.blocks a).entries s₁.blocks ++ [x])
      (L.inode s₁.blocks a) s₁ d₂ s₂)
    (ids : KeepsIds (L.inode s₁.blocks a) s₁ d₂ s₂)
    (second : Evolved L.formatted.dataBitmap (fun _ => False) d₀ s₂ d₃ s₃)
    (noLeak : NoLeak L.formatted.dataBitmap d₀ s₂ d₃ s₃) (new : NewInode n a d₀ d₃ s₃) :
    ∃ s₄ s', (writeInode (L.slot n) d₃).run s₃ = (.kSuccess, s₄) ∧
      (writeInode (L.slot a) d₂).run s₄ = (.kSuccess, s') ∧ SameMarks L s₁ s' ∧
      Populated L s' (fun j => live j ∨ j = n) ∧ Stored L live a x s₁ s' ∧ NewInode n a d₀ (L.inode s'.blocks n) s' ∧
      BlocksKept L live (fun j => live j ∨ j = n) a s₁ s' := by
  have slotA := state.slots a here
  have ne : ∀ j, live j → j ≠ n := by
    rintro j there rfl
    exact fresh there
  obtain ⟨vol, self, others⟩ := state.grow_both here fresh empty first.evolved second
  -- the inodes as they are to be saved
  have atA : createdInodes L s₁ a d₂ n d₃ a = d₂ := by
    rw [createdInodes, Function.update_of_ne (ne a here), Function.update_self]
  have atN : createdInodes L s₁ a d₂ n d₃ n = d₃ := Function.update_self _ _ _
  have atJ : ∀ j, j ≠ a → j ≠ n → createdInodes L s₁ a d₂ n d₃ j = L.inode s₁.blocks j := fun j notA notN => by
    rw [createdInodes, Function.update_of_ne notN, Function.update_of_ne notA]
  have segment₂ := first.evolved.segment state.volume.segment
  have kept : ∀ j, live j → L.inode s₃.blocks j = L.inode s₁.blocks j := fun j there =>
    (Layout.inode_kept (state.slots j there) second segment₂).trans
      (Layout.inode_kept (state.slots j there) first.evolved state.volume.segment)
  obtain ⟨s₄, s', saveN, saveA, marks, low, vol', inodes⟩ := run_save_both slotA slotN vol state.slots
    atA atN fun j there notA notN => (atJ j notA notN).trans (kept j there).symm
  have count' : s'.count = s₁.count :=
    low.count.trans (second.touches.count.trans first.evolved.touches.count)
  have state' : Populated L s' fun j => live j ∨ j = n := by
    refine ⟨count' ▸ state.device, count' ▸ state.failId, fun j there => ?_, vol'⟩
    cases there with
    | inl old => exact state.slots j old
    | inr is => exact is ▸ slotN
  refine ⟨s₄, s', saveN, saveA, ?_, state', ?_, ?_, fun b => ?_, ?_⟩
  · exact .trans (.of_evolved first.evolved state.volume.segment fun _ => False.elim)
      (.trans (.of_evolved second segment₂ fun _ => False.elim) marks)
  · obtain ⟨inodeA, movedA⟩ := inodes a (.inl here)
    rw [atA] at inodeA movedA
    constructor
    case type => rw [inodeA, first.type]
    case linkCnt => rw [Layout.links, inodeA, first.linkCnt, Layout.links]
    case size => rw [inodeA, first.size]
    case entries => rw [inodeA, movedA.entries, self.entries, first.entries]
    case others =>
      intro j there other
      obtain ⟨inodeJ, movedJ⟩ := inodes j (.inl there)
      rw [atJ j other (ne j there)] at inodeJ movedJ
      exact ((others j there other).trans movedJ).recounted inodeJ
  · -- the new inode: saving the other one has not moved it
    obtain ⟨inodeN, movedN⟩ := inodes n (.inr rfl)
    rw [atN] at inodeN movedN
    rw [inodeN]
    exact new.unmoved movedN
  · exact (Volume.congr_lost (fun j there _ => (inodes j there).1) (fun j there out => absurd there out)
      (fun j there out => absurd there out) b).trans ((vol.below_lost low b).trans
        (state.grow_both_lost here fresh empty first.evolved first.noLeak second noLeak b))
  · obtain ⟨inodeA, movedA⟩ := inodes a (.inl here)
    rw [atA] at inodeA movedA
    rw [inodeA]
    exact ids.trans (fun y owns _ => (movedA.ids y owns).trans (self.ids y owns)) fun _ _ owns => owns

/-- A new name in a directory. -/
theorem Edited.of_stored {x : Nat} (state' : Populated L s' live) (dir : IsDirectory (L.inode s.blocks a) s.blocks)
    (proper : ProperName name) (absent : ∀ y, (name, y) ∉ (L.inode s.blocks a).entries s.blocks)
    (stored : Stored L live a (name, x) s s') :
    Edited L live a ((L.inode s.blocks a).entries s.blocks ++ [(name, x)]) (L.links s.blocks) s s' where
  state := state'
  entries := stored.entries
  linkCnt := stored.linkCnt
  others := stored.others
  dir := by
    refine ⟨stored.type.trans dir.type, ?_, ?_, ?_⟩
    · rw [stored.entries, stored.size]
    · rw [stored.entries]
      exact (show Linked _ name x false _ from .appended absent).names dir.names proper
    · rw [stored.entries]
      exact dir.distinct.append absent x

/-- How `create` ends, whatever the name: the entry holds the first 251 bytes of it. -/
inductive CreateOutcome (L : Layout) (live : Nat → Prop) (a : Nat) (name : Name) (d₀ : DiskInode) (s s' : Disk) :
    Ret × Option Position → Prop where
  | done {n : Nat} (free : (L.formatted.inodeBitmap.freeIds s.blocks).head? = some n)
      (state : Populated L s' fun j => live j ∨ j = n)
      (stored : Stored L live a (name.take kMaxDirNameLength, n) s s')
      (new : NewInode n a d₀ (L.inode s'.blocks n) s') :
      CreateOutcome L live a name d₀ s s' (.kSuccess, some (L.slot n))
  | failed {p : Option Position} (state : Populated L s' live) (same : ∀ j, live j → SameFile L j s s')
      (cause : L.formatted.inodeBitmap.freeIds s.blocks = [] ∨ (L.formatted.dataBitmap.freeIds s.blocks).length <
        growth (L.inode s.blocks a) ((L.inode s.blocks a).size.toNat + 256) + newBlocks d₀) :
      CreateOutcome L live a name d₀ s s' (.kFail, p)

/-- `Inode::create`, in a directory of which only the size matters, with what becomes of the blocks. -/
theorem Populated.run_create_blocks (state : Populated L s live) (here : live a)
    (type : (L.inode s.blocks a).type = kDirectory) {m : Nat} (aligned : (L.inode s.blocks a).size.toNat = 256 * m)
    (small : 256 * (m + 1) ≤ 2147483648) (noZero : ∀ c ∈ name, c ≠ 0) (empty : d₀.Empty)
    (marked : ∀ j, live j → L.formatted.inodeBitmap.Used s.blocks j)
    (off : L.formatted.inodeBitmap.freeIds s.blocks = [] → s.count ≤ (L.slot kFailId).blockId)
    (inside : ∀ n, (L.formatted.inodeBitmap.freeIds s.blocks).head? = some n → L.SlotId n) :
    ∃ r s', (Inode.create L.formatted (L.slot a) name d₀).run s = (r, s') ∧
      (∀ i, L.formatted.inodeBitmap.Used s'.blocks i ↔
        L.formatted.inodeBitmap.Used s.blocks i ∨ (L.formatted.inodeBitmap.freeIds s.blocks).head? = some i) ∧
      CreateOutcome L live a name d₀ s s' r ∧
      (r.1 = .kSuccess → ∀ n, (L.formatted.inodeBitmap.freeIds s.blocks).head? = some n →
        BlocksKept L live (fun j => live j ∨ j = n) a s s') := by
  have slotA := state.slots a here
  have isDir : ¬ (L.inode s.blocks a).type ≠ kDirectory := not_not_intro type
  obtain ⟨n, s₁, alloc, assigned⟩ := state.run_allocInode inside
  obtain ⟨state₁, same₁⟩ := state.underneath assigned.touches
  -- the inode has not been in use
  have fresh : ¬ live n := by
    intro there
    cases assigned.place with
    | inl head =>
      have free := List.mem_of_head? head
      exact (Bitmap.used_iff.mp (marked n there)).2 free
    | inr full =>
      have onDevice := state.onDevice (state.slots n there)
      have := off full.1
      rw [full.2] at onDevice
      omega
  have inode : L.inode s₁.blocks a = L.inode s.blocks a := (same₁ a here).inode
  have aligned₁ : (L.inode s₁.blocks a).size.toNat = 256 * m := by rw [inode, aligned]
  have segment₁ := state₁.volume.segment
  obtain ⟨ret, d₂, s₂, append, extended⟩ := Inode.run_appendEntry_any
    (state₁.volume.map a here) segment₁ state₁.failId aligned₁ small name n
  have segment₂ := extended.dropped.evolved.segment segment₁
  have failId₂ : s₂.count ≤ kFailId := extended.dropped.evolved.touches.count ▸ state₁.failId
  obtain ⟨ret', d₃, s₃, dots, dropped, made, room, -⟩ := run_newInode segment₂ failId₂ empty slotA.2 n
  have marks : ∀ s', SameMarks L s₁ s' → ∀ i, L.formatted.inodeBitmap.Used s'.blocks i ↔
      L.formatted.inodeBitmap.Used s.blocks i ∨ (L.formatted.inodeBitmap.freeIds s.blocks).head? = some i :=
    fun s' same i => (same.used i).trans (assigned.bits i)
  have free : L.formatted.dataBitmap.freeIds s₁.blocks = L.formatted.dataBitmap.freeIds s.blocks := by
    refine Bitmap.freeIds_congr fun b holds => assigned.touches.blocks b fun below => ?_
    have between := holds.1
    rw [Layout.dataBitmap_eq] at between
    simp only [Layout.inodeAreaStart, Layout.dataBitmapStart] at between below
    omega
  have grows : growth (L.inode s.blocks a) ((L.inode s.blocks a).size.toNat + 256) =
      growth (L.inode s₁.blocks a) (256 * (m + 1)) := by
    rw [inode, aligned, Nat.mul_succ]
  have target : L.formatted.getDiskInodePos n = L.slot n := rfl
  have self := Layout.diskInodeId_slot slotA
  rw [inode] at append
  cases ret with
  | kFail =>
    obtain ⟨state₂, marks₂, same₂⟩ := state₁.create_dropped here fresh empty extended.dropped
      ⟨.refl empty.map, fun _ _ => rfl, fun _ _ => rfl⟩
    refine ⟨(.kFail, some (L.slot n)), s₂, ?_, marks s₂ marks₂, .failed state₂ (fun j there =>
      (same₁ j there).trans (same₂ j there)) (.inr ?_), fun success => by cases success⟩
    · simp only [Inode.create, DevProg.run_bind, state.run_readInode here, isDir, if_false, alloc, append,
        target, DevProg.run_pure]
    · by_contra enough
      rw [grows, ← free] at enough
      exact absurd (extended.enough (by omega)) (by decide)
  | kSuccess =>
    obtain ⟨state₃, marks₃, same₃⟩ := state₁.create_dropped here fresh empty extended.dropped dropped
    have unchanged : ∀ j, live j → SameFile L j s s₃ := fun j there => (same₁ j there).trans (same₃ j there)
    cases ret' with
    | kFail =>
      refine ⟨(.kFail, some (L.slot n)), s₃, ?_, marks s₃ marks₃, .failed state₃ unchanged (.inr ?_),
        fun success => by cases success⟩
      · simp only [Inode.create, DevProg.run_bind, state.run_readInode here, isDir, if_false, alloc, append, self,
          dots, target, DevProg.run_pure]
      · by_contra enough
        have used := extended.free rfl
        rw [grows, ← free] at enough
        exact absurd (room (by omega)) (by decide)
    | kSuccess =>
      cases assigned.place with
      | inr full =>
        -- the inode has no place on the device
        have off₃ : s₃.count ≤ (L.slot n).blockId := by
          rw [dropped.evolved.touches.count, extended.dropped.evolved.touches.count, assigned.touches.count, full.2]
          exact off full.1
        refine ⟨(.kFail, some (L.slot n)), s₃, ?_, marks s₃ marks₃, .failed state₃ unchanged (.inl full.1),
          fun success => by cases success⟩
        simp only [Inode.create, DevProg.run_bind, state.run_readInode here, isDir, if_false, alloc, append, self,
          dots, target, run_writeInode_off d₃ off₃, DevProg.run_pure]
      | inl head =>
        have slotN := inside n head
        obtain ⟨evolved, noLeak, new⟩ := made rfl
        have ids : KeepsIds (L.inode s₁.blocks a) s₁ d₂ s₂ := fun x owns _ => (extended.written rfl).keeps x owns
        have reworked := Reworked.appended (extended.written rfl) aligned₁
        rw [entriesIn_dirEntry_take noZero slotN.2] at reworked
        obtain ⟨s₄, s', saveN, saveA, marks', created, stored, new', kept⟩ := state₁.create_saved here fresh slotN empty
          reworked ids evolved noLeak (new slotN.2)
        have before := state.underneath_kept here assigned.touches
        refine ⟨_, s', ?_, marks s' marks', .done head created (stored.after same₁ here) new', fun _ m head' => ?_⟩
        rotate_left
        · obtain rfl : n = m := Option.some.inj (head.symm.trans head')
          exact ⟨fun b => (kept.lost b).trans (before.lost b),
            before.ids.trans kept.ids fun _ owns _ => inode.symm ▸ owns⟩
        simp only [Inode.create, DevProg.run_bind, state.run_readInode here, isDir, if_false, alloc, append, self,
          dots, target, saveN, saveA, DevProg.run_pure]

/-- `Inode::create`, in a directory of which only the size matters. -/
theorem Populated.run_create_any (state : Populated L s live) (here : live a)
    (type : (L.inode s.blocks a).type = kDirectory) {m : Nat} (aligned : (L.inode s.blocks a).size.toNat = 256 * m)
    (small : 256 * (m + 1) ≤ 2147483648) (noZero : ∀ c ∈ name, c ≠ 0) (empty : d₀.Empty)
    (marked : ∀ j, live j → L.formatted.inodeBitmap.Used s.blocks j)
    (off : L.formatted.inodeBitmap.freeIds s.blocks = [] → s.count ≤ (L.slot kFailId).blockId)
    (inside : ∀ n, (L.formatted.inodeBitmap.freeIds s.blocks).head? = some n → L.SlotId n) :
    ∃ r s', (Inode.create L.formatted (L.slot a) name d₀).run s = (r, s') ∧
      (∀ i, L.formatted.inodeBitmap.Used s'.blocks i ↔
        L.formatted.inodeBitmap.Used s.blocks i ∨ (L.formatted.inodeBitmap.freeIds s.blocks).head? = some i) ∧
      CreateOutcome L live a name d₀ s s' r := by
  obtain ⟨r, s', run, bits, outcome, -⟩ := state.run_create_blocks here type aligned small noZero empty marked off inside
  exact ⟨r, s', run, bits, outcome⟩

/-- `Inode::create`. -/
theorem Populated.run_create (state : Populated L s live) (here : live a) (ok : Searchable L a s)
    (absent : ∀ x, (name, x) ∉ (L.inode s.blocks a).entries s.blocks) (proper : ProperName name) (empty : d₀.Empty)
    (marked : ∀ j, live j → L.formatted.inodeBitmap.Used s.blocks j)
    (off : L.formatted.inodeBitmap.freeIds s.blocks = [] → s.count ≤ (L.slot kFailId).blockId)
    (inside : ∀ n, (L.formatted.inodeBitmap.freeIds s.blocks).head? = some n → L.SlotId n) :
    ∃ r s', (Inode.create L.formatted (L.slot a) name d₀).run s = (r, s') ∧
      (∀ i, L.formatted.inodeBitmap.Used s'.blocks i ↔
        L.formatted.inodeBitmap.Used s.blocks i ∨ (L.formatted.inodeBitmap.freeIds s.blocks).head? = some i) ∧
      CreateResult L live a name d₀ s s' r := by
  obtain ⟨r, s', run, bits, outcome⟩ := state.run_create_any here ok.dir.type ok.dir.aligned
    (by have := ok.small; omega) proper.noZero empty marked off inside
  refine ⟨r, s', run, bits, ?_⟩
  cases outcome with
  | failed state' same cause => exact .failed state' same cause
  | done free state' stored new =>
    rw [show name.take kMaxDirNameLength = name from List.take_of_length_le proper.fits] at stored
    exact .done free ⟨state', .of_stored (state'.subset fun _ => .inl) ok.dir proper absent stored, new⟩

/-- With a free inode and enough blocks. -/
theorem Populated.run_create_room (state : Populated L s live) (here : live a) (ok : Searchable L a s)
    (absent : ∀ x, (name, x) ∉ (L.inode s.blocks a).entries s.blocks) (proper : ProperName name) (empty : d₀.Empty)
    (marked : ∀ j, live j → L.formatted.inodeBitmap.Used s.blocks j) {n : Nat}
    (head : (L.formatted.inodeBitmap.freeIds s.blocks).head? = some n) (slotId : L.SlotId n)
    (enough : growth (L.inode s.blocks a) ((L.inode s.blocks a).size.toNat + 256) + newBlocks d₀ ≤
      (L.formatted.dataBitmap.freeIds s.blocks).length) :
    ∃ s', (Inode.create L.formatted (L.slot a) name d₀).run s = ((.kSuccess, some (L.slot n)), s') ∧
      (∀ i, L.formatted.inodeBitmap.Used s'.blocks i ↔ L.formatted.inodeBitmap.Used s.blocks i ∨ i = n) ∧
      Created L live a name n d₀ s s' := by
  obtain ⟨r, s', run, bits, result⟩ := state.run_create here ok absent proper empty marked
    (fun full => by rw [full] at head; cases head) fun n' head' => by
      rw [head] at head'
      exact Option.some.inj head' ▸ slotId
  cases result with
  | failed _ _ cause =>
    cases cause with
    | inl full =>
      rw [full] at head
      cases head
    | inr short => omega
  | @done m head' created =>
    obtain rfl : n = m := Option.some.inj (head.symm.trans head')
    refine ⟨s', run, fun i => (bits i).trans (or_congr_right ?_), created⟩
    rw [head, Option.some.injEq]
    exact eq_comm

/-! ## `remove` -/

section

variable {x : Nat} {del d' : DiskInode}

/-- An inode gives its blocks back and is no longer looked after. -/
theorem Populated.release (state : Populated L s live) (there : live x) (copy : SameMap (L.inode s.blocks x) del)
    (evolved : Evolved L.formatted.dataBitmap (· = 0) del s d' s') (noLeak : NoLeak L.formatted.dataBitmap del s d' s')
    (nothing : ∀ y, ¬ d'.Owns y) :
    Populated L s' (fun j => live j ∧ j ≠ x) ∧ SameMarks L s s' ∧ (∀ j, live j → j ≠ x → SameFile L j s s') ∧
      ∀ b, L.Lost (fun j => live j ∧ j ≠ x) s' b ↔ L.Lost live s b := by
  have step := copy.evolved evolved
  have segment := state.volume.segment
  have start : 0 < L.formatted.dataBitmap.startBlockId := by
    have := segment.high
    omega
  have low : ∀ b, b = 0 → b < L.formatted.dataBitmap.startBlockId := fun b zero => zero ▸ start
  have kept : ∀ j, live j → L.inode s'.blocks j = L.inode s.blocks j := by
    intro j here
    have area := Layout.slot_area (state.slots j here)
    rw [Layout.inode, Layout.inode, evolved.slot_kept segment (Layout.slot_low (state.slots j here)) fun zero => ?_]
    rw [Layout.inodeAreaStart] at area
    omega
  refine ⟨⟨evolved.touches.count ▸ state.device, evolved.touches.count ▸ state.failId,
    fun j here => state.slots j here.1, ?_⟩, .of_evolved evolved segment fun b zero => .inl zero, fun j here ne => ?_,
    fun b => ?_⟩
  · refine (state.volume.evolve there step low).congr (fun j here here' => ?_) fun j here out => absurd here.1 out
    rw [Function.update_of_ne here'.2, kept j here]
  · exact ((state.volume.unmoved there step low here ne).recounted (kept j here)).sameFile
  · refine (Volume.congr_lost (fun j here here' => ?_) (fun j here out => ?_) (fun j here out => absurd here.1 out) b).trans
      (state.volume.evolve_lost there step low (copy.noLeak noLeak) b)
    · rw [Function.update_of_ne here'.2, kept j here]
    · obtain rfl : j = x := by
        by_contra ne
        exact out ⟨here, ne⟩
      rw [Function.update_self]
      exact nothing

/-- How `remove` ends. -/
inductive RemoveResult (L : Layout) (live : Nat → Prop) (a : Nat) (name : Name) (s s' : Disk) : Ret → Prop where
  | freed {e x : Nat} (here : ((L.inode s.blocks a).entries s.blocks)[e]? = some (name, x))
      (last : L.links s.blocks x = 1)
      (edited : Edited L (fun j => live j ∧ j ≠ x) a (removeAt ((L.inode s.blocks a).entries s.blocks) e)
        (L.links s.blocks) s s')
      (bits : ∀ i, L.formatted.inodeBitmap.Used s'.blocks i ↔ L.formatted.inodeBitmap.Used s.blocks i ∧ i ≠ x)
      (blocks : ∀ b, (L.inode s.blocks x).OwnsBlock s.blocks b → ¬ L.formatted.dataBitmap.Used s'.blocks b) :
      RemoveResult L live a name s s' .kSuccess
  | kept {x : Nat} (here : (name, x) ∈ (L.inode s.blocks a).entries s.blocks) (more : L.links s.blocks x ≠ 1)
      (marks : SameMarks L s s')
      (edited : Edited L live a ((L.inode s.blocks a).entries s.blocks) (L.links s.blocks) s s') :
      RemoveResult L live a name s s' .kSuccess
  | absent (quiet : Touches (fun _ => False) s s')
      (unbound : ∀ x, (name, x) ∉ (L.inode s.blocks a).entries s.blocks) :
      RemoveResult L live a name s s' .kFail

/-- `resize` to nothing. -/
theorem run_resize_nothing {bm : Bitmap} (map : WellMapped bm del s.blocks) (segment : bm.Segment s.count) :
    ∃ d' s', (del.resize 0 bm none).run s = ((.kSuccess, d'), s') ∧ Evolved bm (· = 0) del s d' s' ∧
      NoLeak bm del s d' s' ∧ (∀ y, ¬ d'.Owns y) ∧ ∀ b, del.OwnsBlock s.blocks b → ¬ bm.Used s'.blocks b := by
  obtain ⟨d', s', run, resized⟩ := run_resize map segment (show 0 < 4294967296 by decide)
    (by rw [growth_shrink (Nat.zero_le _)]; exact Nat.zero_le _) (own_none bm)
  -- nothing is left to own
  have nothing : ∀ y, ¬ d'.Owns y := by
    intro y valid
    rw [DiskInode.Owns, resized.size] at valid
    cases y <;> simp [Valid, dataBlocks] at valid
  refine ⟨d', s', run, resized.evolved.mono fun b extra => ?_, resized.noLeak, nothing, fun b own used => ?_⟩
  · cases extra with
    | inl saved =>
      obtain ⟨p, none, -⟩ := saved
      cases none
    | inr stray => exact stray.2
  · cases resized.noLeak b used with
    | inl kept => exact kept.2 own
    | inr owns =>
      obtain ⟨y, valid, -⟩ := owns
      exact nothing y valid

/-- The last name of inode `x` has been taken out; its bit and its blocks follow. -/
theorem Populated.run_free (state : Populated L s live) (there : live x) (copy : SameMap (L.inode s.blocks x) del)
    (used : L.formatted.inodeBitmap.Used s.blocks x) :
    ∃ s₄ d' s', (L.formatted.freeInode x).run s = (.kSuccess, s₄) ∧
      (del.resize 0 L.formatted.dataBitmap none).run s₄ = ((.kSuccess, d'), s') ∧
      Populated L s' (fun j => live j ∧ j ≠ x) ∧
      (∀ i, L.formatted.inodeBitmap.Used s'.blocks i ↔ L.formatted.inodeBitmap.Used s.blocks i ∧ i ≠ x) ∧
      (∀ b, (L.inode s.blocks x).OwnsBlock s.blocks b → ¬ L.formatted.dataBitmap.Used s'.blocks b) ∧
      (∀ j, live j → j ≠ x → SameFile L j s s') ∧ ∀ b, L.Lost (fun j => live j ∧ j ≠ x) s' b ↔ L.Lost live s b := by
  obtain ⟨s₄, run, touches, bits⟩ := Bitmap.run_free_id state.inodeBitmap_fits used.1 (state.slots x there).2
  have low : Touches (fun b => b < L.inodeAreaStart) s s₄ :=
    touches.mono fun b holds => (Layout.marks_between holds).2
  obtain ⟨state₄, same₄⟩ := state.underneath low
  have inode := (same₄ x there).inode
  have copy₄ : SameMap (L.inode s₄.blocks x) del := by
    rw [inode]
    exact copy
  obtain ⟨d', s', cut, evolved, noLeak, nothing, freed⟩ := run_resize_nothing (copy₄.map (state₄.volume.map x there))
    state₄.volume.segment
  obtain ⟨state', marks, same', lost⟩ := state₄.release there copy₄ evolved noLeak nothing
  refine ⟨s₄, d', s', run, cut, state', fun i => (marks.used i).trans (bits i), fun b own => freed b ?_,
    fun j here ne => (same₄ j here).trans (same' j here ne),
    fun b => (lost b).trans ((state.underneath_kept there low).lost b)⟩
  rw [copy₄.ownsBlock, inode]
  obtain ⟨y, owns, rfl⟩ := own
  have ids := (same₄ x there).ids y owns
  rw [inode] at ids
  exact ⟨y, owns, ids.symm⟩

/-- A directory is saved with new times. -/
theorem Populated.run_save_retimed (state : Populated L s live) (here : live a) (ok : Searchable L a s)
    (quiet : Touches (fun _ => False) s s₁) {d : DiskInode} (retimed : Retimed (L.inode s.blocks a) d) :
    ∃ s', (writeInode (L.slot a) d).run s₁ = (.kSuccess, s') ∧ SameMarks L s s' ∧
      Edited L live a ((L.inode s.blocks a).entries s.blocks) (L.links s.blocks) s s' := by
  have copy : SameMap (L.inode s.blocks a) d := .of_retimed retimed
  have stamped := Reworked.retimed (W := fun _ => False) (copy.map (state.volume.map a here))
    (by rw [copy.size]; exact ok.dir.aligned) (.refl d) quiet
  rw [copy.entries] at stamped
  obtain ⟨s', run, marks, edited, -⟩ := state.reworked_saved here copy (by rw [retimed]; exact ok.dir.type) stamped
    ok.dir.names ok.dir.distinct
  refine ⟨s', run, marks, edited.congr here fun j there => ?_⟩
  have count : d.linkCnt = L.links s.blocks a := by
    rw [retimed]
    rfl
  rw [count, Function.update_eq_self]

/-- `Inode::remove` of a name that the search has found, and that is the last name of its inode. -/
theorem Populated.run_remove_last (state : Populated L s live) (here : live a) (ok : Searchable L a s)
    (few : ((L.inode s.blocks a).entries s.blocks).length ≤ 33152) (there : live x) (ne : x ≠ a)
    (marked : L.formatted.inodeBitmap.Used s.blocks x) {d : DiskInode} {i j : Nat}
    (run : (scan (L.inode s.blocks a) name).run s = ((.found i j x, d), s₁)) (retimed : Retimed (L.inode s.blocks a) d)
    (quiet : Touches (fun _ => False) s s₁) (low : j < 16)
    (entry : ((L.inode s.blocks a).entries s.blocks)[16 * i + j]? = some (name, x)) (last : L.links s.blocks x = 1) :
    ∃ s', (Inode.remove L.formatted (L.slot a) name).run s = (.kSuccess, s') ∧
      Edited L (fun j => live j ∧ j ≠ x) a (removeAt ((L.inode s.blocks a).entries s.blocks) (16 * i + j))
        (L.links s.blocks) s s' ∧
      (∀ i, L.formatted.inodeBitmap.Used s'.blocks i ↔ L.formatted.inodeBitmap.Used s.blocks i ∧ i ≠ x) ∧
      (∀ b, (L.inode s.blocks x).OwnsBlock s.blocks b → ¬ L.formatted.dataBitmap.Used s'.blocks b) ∧
      BlocksKept L live (fun j => live j ∧ j ≠ x) a s s' := by
  have isDir : ¬ (L.inode s.blocks a).type ≠ kDirectory := not_not_intro ok.dir.type
  have place : L.formatted.getDiskInodePos x = L.slot x := rfl
  have read : (readInode (L.slot x)).run s₁ = (some (L.inode s.blocks x), s₁) := by
    rw [(state.underneath (quiet.mono fun _ => False.elim)).1.run_readInode there, quiet.quiet]
  have zero : (L.inode s.blocks x).linkCnt - 1 = 0 := by
    rw [show (L.inode s.blocks x).linkCnt = 1 from last]
    rfl
  obtain ⟨d₁, s₂, d₂, s₃, move, shrink, marks, edited, kept⟩ := state.run_takeOut here ok few quiet retimed low entry
  have other := edited.others x there ne
  have copy : SameMap (L.inode s₃.blocks x)
      { L.inode s.blocks x with linkCnt := (L.inode s.blocks x).linkCnt - 1 } := by
    rw [other.inode]
    exact (SameMap.recounted _ _).symm.trans (.recounted _ _)
  obtain ⟨s₄, d', s', free, cut, state', bits, freed, same, lost⟩ := edited.state.run_free there copy
    ((marks.used x).mpr marked)
  rw [zero] at cut
  have self := same a here ne.symm
  refine ⟨s', ?_, ?_, fun i => ?_, fun b own => freed b ?_, fun b => (lost b).trans (kept.lost b), ?_⟩
  · simp only [Inode.remove, DevProg.run_bind, state.run_readInode here, isDir, if_false, run, place, read, zero,
      if_true, move, shrink, free, cut, DevProg.run_pure]
  · have keeps := Recounted.of_sameFile self
    refine ⟨state', keeps.isDirectory edited.dir, keeps.entries.trans edited.entries, ?_, fun k alive notA => ?_⟩
    · rw [Layout.links, self.inode]
      exact edited.linkCnt
    · have second := Recounted.of_sameFile (same k alive.1 alive.2)
      have first := edited.others k alive.1 notA
      rw [first.inode] at second
      exact first.trans second
  · rw [bits, marks.used]
  · obtain ⟨y, owns, rfl⟩ := own
    rw [DiskInode.OwnsBlock, other.owns]
    exact ⟨y, owns, (other.ids y owns).symm⟩
  · -- the directory is not touched while the inode is freed
    have inode := self.inode
    exact kept.ids.trans (fun y owns _ => self.ids y owns) fun y _ owns => inode ▸ owns

/-- `Inode::remove`. -/
theorem Populated.run_remove (state : Populated L s live) (here : live a) (ok : Searchable L a s)
    (few : ((L.inode s.blocks a).entries s.blocks).length ≤ 33152) (proper : ProperName name)
    (marked : ∀ j, live j → L.formatted.inodeBitmap.Used s.blocks j)
    (target : ∀ x, (name, x) ∈ (L.inode s.blocks a).entries s.blocks → live x ∧ x ≠ a) :
    ∃ ret s', (Inode.remove L.formatted (L.slot a) name).run s = (ret, s') ∧ RemoveResult L live a name s s' ret := by
  obtain ⟨r, d, s₁, run, retimed, quiet, answers, -⟩ := state.run_scan here ok proper
  have isDir : ¬ (L.inode s.blocks a).type ≠ kDirectory := not_not_intro ok.dir.type
  cases answers with
  | failed unbound =>
    refine ⟨_, s₁, ?_, .absent quiet unbound⟩
    simp only [Inode.remove, DevProg.run_bind, state.run_readInode here, isDir, if_false, run, DevProg.run_pure]
  | absent unbound =>
    refine ⟨_, s₁, ?_, .absent quiet unbound⟩
    simp only [Inode.remove, DevProg.run_bind, state.run_readInode here, isDir, if_false, run, DevProg.run_pure]
  | @found i j x low entry =>
    obtain ⟨there, ne⟩ := target x (List.mem_of_getElem? entry)
    obtain ⟨state₁, same₁⟩ := state.underneath (quiet.mono fun _ => False.elim)
    have place : L.formatted.getDiskInodePos x = L.slot x := rfl
    have blocks := quiet.quiet
    have read : (readInode (L.slot x)).run s₁ = (some (L.inode s.blocks x), s₁) := by
      rw [state₁.run_readInode there, blocks]
    by_cases last : L.links s.blocks x = 1
    · obtain ⟨s', run', edited, bits, blocks, -⟩ := state.run_remove_last here ok few there ne (marked x there) run retimed
        quiet low entry last
      exact ⟨_, s', run', .freed entry last edited bits blocks⟩
    · have more : ¬ (L.inode s.blocks x).linkCnt - 1 = 0 := fun zero => last (by
        rw [Layout.links, ← UInt16.sub_add_cancel (L.inode s.blocks x).linkCnt 1, zero]
        rfl)
      obtain ⟨s', save, marks, edited⟩ := state.run_save_retimed here ok quiet retimed
      refine ⟨_, s', ?_, .kept (List.mem_of_getElem? entry) last marks edited⟩
      simp only [Inode.remove, DevProg.run_bind, state.run_readInode here, isDir, if_false, run, place, read, more,
        save]

end

end

end Sbfs
