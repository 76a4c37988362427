import Sbfs.FormattedTree
import Sbfs.LostBlocks

/-! # File systems with few inodes

As long as there are few inodes and the files are empty, an inode owns one block at most (`Young.owns`), so there is
space for every request.  Callbacks on names in the root then run to their end, which the concrete runs of the later
modules are made of. -/

namespace Sbfs

open NamedTree FileTree ReqProg Slot

namespace Bitmap

variable {bm : Bitmap} {D : Nat → Block} {S : Finset Nat}

theorem capacity_le (used : ∀ b, bm.Used D b → b ∈ S) : bm.capacity ≤ (bm.freeIds D).length + S.card := by
  have ids : (Finset.range bm.capacity).image (bm.dataSegmentOffset + ·) ⊆ (bm.freeIds D).toFinset ∪ S := by
    intro b member
    obtain ⟨k, inside, rfl⟩ := Finset.mem_image.mp member
    have segment : bm.InSegment (bm.dataSegmentOffset + k) :=
      ⟨Nat.le_add_right _ _, Nat.add_lt_add_left (Finset.mem_range.mp inside) _⟩
    rw [Finset.mem_union, List.mem_toFinset]
    by_cases free : bm.dataSegmentOffset + k ∈ bm.freeIds D
    · exact .inl free
    · exact .inr (used _ (used_iff.mpr ⟨segment, free⟩))
  have count := Finset.card_le_card ids
  rw [Finset.card_image_of_injective _ (add_right_injective bm.dataSegmentOffset), Finset.card_range] at count
  exact count.trans ((Finset.card_union_le _ _).trans (Nat.add_le_add_right (List.toFinset_card_le _) _))

/-- If few ids are used, the first free one is low. -/
theorem head_low (used : ∀ b, bm.Used D b → b ∈ S) (few : S.card < bm.capacity) :
    ∃ n, (bm.freeIds D).head? = some n ∧ n ≤ bm.dataSegmentOffset + S.card := by
  have count := capacity_le used
  cases bits : bm.freeBits D with
  | nil =>
    rw [freeIds, bits, List.map_nil, List.length_nil] at count
    omega
  | cons a rest =>
    obtain ⟨inside, -, below⟩ := head_freeBits.mp (show (bm.freeBits D).head? = some a by rw [bits, List.head?_cons])
    refine ⟨bm.dataSegmentOffset + a, by rw [freeIds, bits, List.map_cons, List.head?_cons], ?_⟩
    have all : (Finset.range a).image (bm.dataSegmentOffset + ·) ⊆ S := by
      intro b member
      obtain ⟨k, low, rfl⟩ := Finset.mem_image.mp member
      have low := Finset.mem_range.mp low
      exact used _ ⟨⟨Nat.le_add_right _ _, by omega⟩, by rw [Nat.add_sub_cancel_left]; exact below k low⟩
    have card := Finset.card_le_card all
    rw [Finset.card_image_of_injective _ (add_right_injective bm.dataSegmentOffset), Finset.card_range] at card
    exact Nat.add_le_add_left card _

end Bitmap

/-- `removePrefix` of a path that is not the root returns. -/
theorem Vfs.removePrefix_done (v : Vfs) {cs : List Name} {c : Name} (parts : ∀ d ∈ cs ++ [c], IsPart d) :
    ∃ v', v.removePrefix (canonical (cs ++ [c])) = .done v' := by
  have nonempty : cs ++ [c] ≠ [] := by simp
  have stripped : removeEndSlash (canonical (cs ++ [c])) ≠ [] := by
    rw [canonical_concat, removeEndSlash_pathOf nonempty (components parts), ← canonical_concat, ← slash_keyOf]
    exact List.cons_ne_nil _ _
  rw [Vfs.removePrefix, PathResolver.removePrefix, if_neg stripped]
  exact ⟨_, rfl⟩

/-! ## Few inodes -/

/-- At most `n` inodes are allocated: directories and empty files. -/
structure FileTree.Small (t : FileTree) (n : Nat) : Prop where
  few : {x | t.kind x ≠ none}.encard ≤ n
  empty : ∀ x, t.content x = []
  typed : ∀ x type, t.kind x = some type → type = kFile ∨ type = kDirectory

section

variable {t : FileTree} {n : Nat} {dir x : Position} {c : Name}

theorem FileTree.Small.create {type : DiskInodeType} (small : t.Small n) (plain : type = kFile ∨ type = kDirectory) :
    (t.create dir c type x).Small (n + 1) := by
  constructor
  case few =>
    have sub : {y | (t.create dir c type x).kind y ≠ none} ⊆ insert x {y | t.kind y ≠ none} := by
      intro y there
      by_cases new : y = x
      · exact .inl new
      · exact .inr fun none => there ((Function.update_of_ne new _ _).trans none)
    exact (Set.encard_le_encard sub).trans ((Set.encard_insert_le _ _).trans (by
      push_cast
      exact add_le_add_left small.few 1))
  case empty =>
    intro y
    rw [create_content]
    split
    · rfl
    · exact small.empty y
  case typed =>
    intro y type' kind
    rw [create_kind] at kind
    split at kind
    · exact Option.some.inj kind ▸ plain
    · exact small.typed y type' kind

theorem FileTree.new_small (root : Position) : (FileTree.new root).Small 1 := by
  refine ⟨(Set.encard_le_encard (t := {root}) fun x allocated => ?_).trans_eq (Set.encard_singleton root), fun _ => rfl,
    fun x type kind => .inr (new_kind kind).2⟩
  by_contra other
  exact allocated (Function.update_of_ne (f := fun _ => none) other _)

/-- A root with one name has no other. -/
theorem FileTree.new_create_find {root : Position} {type : DiskInodeType} {d : Name} (ne : d ≠ c) :
    ((FileTree.new root).create root c type x).find root d = none := by
  cases found : ((FileTree.new root).create root c type x).find root d with
  | none => rfl
  | some y =>
    obtain ⟨-, same, -⟩ | old := create_find_some found
    · exact absurd same ne
    · cases old

/-- The names of a directory lead to different inodes. -/
theorem FileTree.Small.size (small : t.Small n) (sound : t.Sound) (dots : ∀ name, t.dots dir name ≠ none → isDot name = true) :
    t.size dir ≤ (n + 2 : Nat) := by
  have names : {name | t.find dir name ≠ none}.encard ≤ n := by
    refine (Set.encard_le_encard_of_injOn (f := fun name => (t.find dir name).getD dir) ?_ ?_).trans small.few
    · intro name there
      obtain ⟨x, edge⟩ := Option.ne_none_iff_exists'.mp there
      dsimp only
      rw [edge, Option.getD_some]
      exact sound.target edge
    · intro name there name' there' same
      obtain ⟨x, edge⟩ := Option.ne_none_iff_exists'.mp there
      obtain ⟨y, edge'⟩ := Option.ne_none_iff_exists'.mp there'
      dsimp only at same
      rw [edge, edge', Option.getD_some, Option.getD_some] at same
      subst same
      exact (sound.tree.once _ _ _ _ _ edge edge').2
  have two : {name | t.dots dir name ≠ none}.encard ≤ 2 := by
    refine (Set.encard_le_encard (t := {[46], [46, 46]}) fun name there => ?_).trans_eq (Set.encard_pair (by decide))
    have dot := dots name there
    rw [isDot, Bool.or_eq_true, beq_iff_eq, beq_iff_eq] at dot
    exact dot
  push_cast
  exact add_le_add names two

end

section

variable {L : Layout} {uid gid : UInt16} {s s' : Disk} {n : Nat} {dir x : Position} {c : Name}

theorem DiskInode.owns_small {d : DiskInode} {x : Slot} (small : d.size.toNat ≤ 4096) (owns : d.Owns x) : x = .data 0 := by
  have few : dataBlocks d.size.toNat ≤ 1 := by
    rw [dataBlocks]
    omega
  rw [DiskInode.Owns] at owns
  cases x with
  | data k =>
    have : k < dataBlocks d.size.toNat := owns
    obtain rfl : k = 0 := by omega
    rfl
  | ind1 => exact absurd (show 23 < dataBlocks d.size.toNat from owns) (by omega)
  | ind2 => exact absurd (show 1047 < dataBlocks d.size.toNat from owns) (by omega)
  | second q => exact absurd (show 1047 + 1024 * q < dataBlocks d.size.toNat from owns) (by omega)

theorem growth_small {d : DiskInode} {newSize : Nat} (small : newSize ≤ 4096) : growth d newSize ≤ 1 := by
  have few : dataBlocks newSize ≤ 1 := by
    rw [dataBlocks]
    omega
  rw [growth_direct (by omega)]
  omega

/-- A disk with at most `n` inodes, whose files are empty and on which no block is lost. -/
structure Layout.Young (L : Layout) (s : Disk) (n : Nat) : Prop where
  disk : OnDisk L s (L.fileTree s)
  tight : Tight L.formatted.dataBitmap s.blocks (L.Allocated s) (L.inode s.blocks)
  small : (L.fileTree s).Small n

namespace Layout.Young

/-- The inodes that are allocated. -/
theorem inodes (young : L.Young s n) : ∃ S : Finset Nat, (∀ i, L.Allocated s i ↔ i ∈ S) ∧ S.card ≤ n := by
  obtain ⟨refs, ok⟩ := young.disk.counted
  refine ⟨(Finset.range (32768 * L.inodeBitmapBlocks)).filter (L.Allocated s), fun i => ?_, ?_⟩
  · rw [Finset.mem_filter, Finset.mem_range]
    exact (and_iff_right_of_imp fun here => (ok.state.slots i here).1).symm
  · have slots : ∀ i, i ∈ (Finset.range (32768 * L.inodeBitmapBlocks)).filter (L.Allocated s) → L.Allocated s i :=
      fun i member => (Finset.mem_filter.mp member).2
    have count := (Set.encard_le_encard_of_injOn (s := ((Finset.range (32768 * L.inodeBitmapBlocks)).filter
      (L.Allocated s) : Set Nat)) (t := {x | (L.fileTree s).kind x ≠ none}) (f := L.slot) (fun i member => ?_)
      fun i member j member' same => ?_).trans young.small.few
    · rw [Set.encard_coe_eq_coe_finsetCard] at count
      exact_mod_cast count
    · have here := slots i member
      change (L.fileTree s).kind (L.slot i) ≠ none
      rw [Layout.kind_slot (ok.state.slots i here), Layout.kindAt, if_pos here]
      exact Option.some_ne_none _
    · exact Layout.slot_inj (ok.state.slots i (slots i member)) (ok.state.slots j (slots j member')) same

theorem size (young : L.Young s n) : (L.fileTree s).size dir ≤ (n + 2 : Nat) := by
  refine young.small.size young.disk.sound fun name there => ?_
  change (if isDot name then _ else none) ≠ none at there
  by_contra other
  exact there (if_neg other)

theorem not_large (young : L.Young s n) (few : n ≤ 350) : ¬ (L.fileTree s).Large dir :=
  not_lt.mpr (young.size.trans (by exact_mod_cast (show n + 2 ≤ 352 by omega)))

/-- An inode is not larger than the entries that it may have. -/
theorem sizes (young : L.Young s n) (bitmap : L.inodeBitmapBlocks = kInodeBitmapBlocks) {i : Nat} (here : L.Allocated s i) :
    (L.inode s.blocks i).size.toNat ≤ 256 * (n + 2) := by
  obtain ⟨refs, ok⟩ := young.disk.counted
  have slotId := ok.state.slots i here
  by_cases type : (L.inode s.blocks i).type = kDirectory
  · have onI := ok.callOn young.disk.sound bitmap here type
    have size : (L.fileTree s).size (L.slot i) ≤ (n + 2 : Nat) := young.size
    rw [size_slot slotId onI (ok.distinct onI)] at size
    rw [(ok.dirs i here type).aligned]
    exact Nat.mul_le_mul_left 256 (by exact_mod_cast size)
  · have content := Layout.content_slot (s := s) slotId
    have kind := Layout.kind_slot (s := s) slotId
    rw [Layout.kindAt, if_pos here] at kind
    have file := (young.small.typed _ _ kind).resolve_right type
    rw [young.small.empty, Layout.contentAt_file here file] at content
    have zero := congrArg List.length content
    rw [DiskInode.length_contentOf, List.length_nil] at zero
    omega

/-- An inode owns one block at most, so few blocks are used. -/
theorem freeBlocks (young : L.Young s n) (bitmap : L.inodeBitmapBlocks = kInodeBitmapBlocks) (few : n ≤ 13) :
    L.formatted.dataBitmap.capacity ≤ (L.formatted.dataBitmap.freeIds s.blocks).length + n := by
  obtain ⟨S, allocated, card⟩ := young.inodes
  have owners : ∀ b, L.formatted.dataBitmap.Used s.blocks b →
      b ∈ S.image fun i => (L.inode s.blocks i).slotId s.blocks (.data 0) := by
    intro b used
    obtain ⟨i, here, x, owns, rfl⟩ := young.tight b used
    have size := young.sizes bitmap here
    obtain rfl := DiskInode.owns_small (by omega) owns
    exact Finset.mem_image_of_mem _ ((allocated i).mp here)
  have count := Bitmap.capacity_le owners
  have image := Finset.card_image_le (s := S) (f := fun i => (L.inode s.blocks i).slotId s.blocks (.data 0))
  omega

/-- The first free inode has a slot. -/
theorem freeInode (young : L.Young s n) (room : L.SlotId (L.inodeAreaStart + n)) :
    ∃ i, (L.formatted.inodeBitmap.freeIds s.blocks).head? = some i ∧ L.SlotId i := by
  obtain ⟨S, allocated, card⟩ := young.inodes
  have offset : L.formatted.inodeBitmap.dataSegmentOffset = L.inodeAreaStart := by rw [L.inodeBitmap_eq]
  have inside := room.1
  have small := room.2
  have few : S.card < L.formatted.inodeBitmap.capacity := by
    rw [Layout.inode_capacity]
    omega
  obtain ⟨i, head, low⟩ := Bitmap.head_low (fun b => (allocated b).mp) few
  rw [offset] at low
  exact ⟨i, head, by omega, by omega⟩

/-- A directory takes one block at most to grow by an entry. -/
theorem grows (young : L.Young s n) (bitmap : L.inodeBitmapBlocks = kInodeBitmapBlocks) (few : n ≤ 13)
    (isDir : (L.fileTree s).kind dir = some kDirectory) :
    growth (recordAt s dir) ((recordAt s dir).size.toNat + 256) ≤ 1 := by
  obtain ⟨a, rfl, on⟩ := young.disk.directory bitmap isDir
  have size := young.sizes bitmap on.here
  exact growth_small (show (L.inode s.blocks a).size.toNat + 256 ≤ 4096 by omega)

theorem covers_create (young : L.Young s n) (bitmap : L.inodeBitmapBlocks = kInodeBitmapBlocks) (few : n ≤ 13)
    (room : L.SlotId (L.inodeAreaStart + n)) (data : n + 2 ≤ L.formatted.dataBitmap.capacity)
    (isDir : (L.fileTree s).kind dir = some kDirectory) (name : Name) (type : DiskInodeType) (mode : UInt16) :
    (InodeReq.create dir name type mode).Covered L s := by
  have grows := young.grows bitmap few isDir
  have free := young.freeBlocks bitmap few
  refine ⟨⟨young.freeInode room, ?_⟩, trivial⟩
  split <;> omega

theorem covers_link (young : L.Young s n) (bitmap : L.inodeBitmapBlocks = kInodeBitmapBlocks) (few : n ≤ 13)
    (data : n + 1 ≤ L.formatted.dataBitmap.capacity) (isDir : (L.fileTree s).kind dir = some kDirectory) (name : Name)
    (inode : Position) (replace : Bool) : (InodeReq.link dir name inode replace).Covered L s := by
  have grows := young.grows bitmap few isDir
  have free := young.freeBlocks bitmap few
  exact ⟨grows.trans (by omega), trivial⟩

/-- What a request leaves is young if its tree is small. -/
theorem step (young : L.Young s n) (bitmap : L.inodeBitmapBlocks = kInodeBitmapBlocks) {q : InodeReq} {r : q.Ans}
    (allowed : q.Allowed (L.fileTree s)) (bounded : ¬ q.Unbounded) (answer : L.roomy uid gid q s r s') :
    ∃ t, FileTree.service q (L.fileTree s) r t ∧ L.fileTree s' = t ∧ ∀ m, t.Small m → L.Young s' m := by
  have lost := young.disk.sameLost bitmap allowed bounded answer
  obtain ⟨t, served, on⟩ := young.disk.step bitmap allowed answer
  have tree := on.tree
  subst tree
  exact ⟨_, served, rfl, fun m small => ⟨on, tight_iff.mpr (lost.none (tight_iff.mp young.tight)), small⟩⟩

/-- A new inode in the root. -/
theorem creates (young : L.Young s n) (bitmap : L.inodeBitmapBlocks = kInodeBitmapBlocks) (few : n ≤ 13)
    (room : L.SlotId (L.inodeAreaStart + n)) (data : n + 2 ≤ L.formatted.dataBitmap.capacity) (part : IsPart c)
    (absent : (L.fileTree s).find (L.slot L.inodeAreaStart) c = none) {type : DiskInodeType}
    (plain : type = kFile ∨ type = kDirectory) (mode : UInt16) : ∃ x s',
      L.roomy uid gid (.create (L.slot L.inodeAreaStart) c type mode) s (.kSuccess, some x) s' ∧
      (L.fileTree s).kind x = none ∧
      L.fileTree s' = (L.fileTree s).create (L.slot L.inodeAreaStart) c type x ∧ L.Young s' (n + 1) := by
  have sound := young.disk.sound
  obtain ⟨r, s', answer⟩ : ∃ r s', L.roomy uid gid (.create (L.slot L.inodeAreaStart) c type mode) s r s' :=
    ⟨_, _, young.covers_create bitmap few room data sound.root c type mode, fun none => (by cases none), rfl⟩
  have allowed : (InodeReq.create (L.slot L.inodeAreaStart) c type mode).Allowed (L.fileTree s) :=
    ⟨sound, sound.root, part, absent⟩
  obtain ⟨t, ⟨x, unused, rfl, rfl⟩, tree, later⟩ := young.step bitmap allowed not_false answer
  exact ⟨x, s', answer, unused, tree, later _ (young.small.create plain)⟩

variable {v : Vfs} (root : v.root = L.slot L.inodeAreaStart)

include root

/-- Globals that have cached no path agree with the disk. -/
theorem mounted (young : L.Young s n) {maxCacheSize : Nat} (resolver : v.pathResolver = .new maxCacheSize) :
    Mounted L s v := by
  refine ⟨young.disk, root, young.disk.sound.tree, fun e member => ?_⟩
  rw [resolver] at member
  exact absurd member List.not_mem_nil

theorem mkdir (young : L.Young s n) (bitmap : L.inodeBitmapBlocks = kInodeBitmapBlocks) (few : n ≤ 13)
    (room : L.SlotId (L.inodeAreaStart + n)) (data : n + 2 ≤ L.formatted.dataBitmap.capacity) (part : IsPart c)
    (absent : (L.fileTree s).find (L.slot L.inodeAreaStart) c = none) (mode : UInt16) : ∃ x s',
      (Callback.vfs (.mkdir (canonical [c]) mode)).Steps L uid gid s v 0 .nothing s' v ∧ (L.fileTree s).kind x = none ∧
      L.fileTree s' = (L.fileTree s).create (L.slot L.inodeAreaStart) c kDirectory x ∧ L.Young s' (n + 1) := by
  obtain ⟨x, s', answer, rest⟩ := young.creates bitmap few room data part absent (.inr rfl) mode
  exact ⟨x, s', mkdir_stepsOn root young.disk.sound.root absent part answer, rest⟩

theorem create (young : L.Young s n) (bitmap : L.inodeBitmapBlocks = kInodeBitmapBlocks) (few : n ≤ 13)
    (room : L.SlotId (L.inodeAreaStart + n)) (data : n + 2 ≤ L.formatted.dataBitmap.capacity) (part : IsPart c)
    (absent : (L.fileTree s).find (L.slot L.inodeAreaStart) c = none) (mode : UInt16) : ∃ x s',
      (Callback.vfs (.create (canonical [c]) mode)).Steps L uid gid s v 0 (.handle (some v.fdManager.fdCounter)) s'
        { v with fdManager := (v.fdManager.open' (some x)).2 } ∧ (L.fileTree s).kind x = none ∧
      L.fileTree s' = (L.fileTree s).create (L.slot L.inodeAreaStart) c kFile x ∧ L.Young s' (n + 1) := by
  obtain ⟨x, s', answer, rest⟩ := young.creates bitmap few room data part absent (.inl rfl) mode
  exact ⟨x, s', create_stepsOn root young.disk.sound.root absent part answer, rest⟩

/-- `unlink` of a name in the root. -/
theorem unlink (young : L.Young s n) (bitmap : L.inodeBitmapBlocks = kInodeBitmapBlocks) (part : IsPart c)
    (found : (L.fileTree s).find (L.slot L.inodeAreaStart) c = some x) (file : (L.fileTree s).kind x = some kFile) :
    ∃ s' v', (Callback.vfs (.unlink (canonical ([] ++ [c])))).Steps L uid gid s v 0 .nothing s' v' := by
  have sound := young.disk.sound
  have other : (L.fileTree s).kind x ≠ some kDirectory := by
    rw [file]
    decide
  -- the name is looked up and removed
  have finds : (InodeReq.find (L.slot L.inodeAreaStart) c).Allowed (L.fileTree s) :=
    ⟨sound, sound.root ▸ Option.some_ne_none _, part⟩
  obtain ⟨a, s₁, looked⟩ : ∃ a s₁, L.roomy uid gid (.find (L.slot L.inodeAreaStart) c) s a s₁ :=
    ⟨_, _, ⟨trivial, trivial⟩, fun none => (by cases none), rfl⟩
  obtain ⟨t, ⟨rfl, rfl⟩, tree, later⟩ := young.step bitmap finds not_false looked
  obtain ⟨b, s₂, removed⟩ : ∃ b s₂, L.roomy uid gid (.remove (L.slot L.inodeAreaStart) c) s₁ b s₂ :=
    ⟨_, _, ⟨trivial, trivial⟩, fun none => (by cases none), rfl⟩
  obtain ⟨v', gone⟩ := v.removePrefix_done (isPart_one part)
  refine ⟨s₂, v', .vfs (.unlink (isPart_one part) ⟨rfl, sound.root⟩ fun y edge => ?_),
    runs_bind.mpr ⟨(0, v'), s₂, ?_, .done⟩⟩
  · cases found.symm.trans edge
    exact other
  · rw [Vfs.sbUnlink, canonical_concat, splitFromLastSlash_pathOf [] part.component]
    dsimp only
    rw [resolve_slash root]
    refine runs_bind.mpr ⟨_, _, .done, ?_⟩
    rw [if_neg rootSlot_isValid]
    refine runs_bind.mpr ⟨_, s₁, runs_call.mpr looked, ?_⟩
    rw [found]
    refine runs_bind.mpr ⟨b, s₂, runs_call.mpr removed, ?_⟩
    rw [← canonical_concat, gone]
    exact runs_bind.mpr ⟨_, _, .done, .done⟩

/-- `rename` of a name in the root, without exchange, once the new parent has been found. -/
theorem rename (bitmap : L.inodeBitmapBlocks = kInodeBitmapBlocks) (few : n ≤ 13)
    (data : n + 1 ≤ L.formatted.dataBitmap.capacity) (part : IsPart c) {ds : List Name} {d : Name}
    (parts : ∀ e ∈ ds ++ [d], IsPart e) {s₁ : Disk} {v₁ : Vfs} (young : L.Young s₁ n)
    (way : Runs (L.roomy uid gid) (v.resolve (pathOf ds ++ [slash])) s (dir, v₁) s₁)
    (isDir : (L.fileTree s₁).kind dir = some kDirectory)
    (found : (L.fileTree s₁).find (L.slot L.inodeAreaStart) c = some x) {flags : Nat} (plain : flags.testBit 1 = false) :
    ∃ s' v', Runs (L.roomy uid gid) (v.sbRename (canonical ([] ++ [c])) (canonical (ds ++ [d])) flags) s (0, v') s' := by
  have sound := young.disk.sound
  have valid : ¬ (!dir.isValid) = true := by
    rw [young.disk.solid dir (isDir ▸ Option.some_ne_none _)]
    exact Bool.false_ne_true
  -- the source loses its name
  have unlinks : (InodeReq.unlink (L.slot L.inodeAreaStart) c).Allowed (L.fileTree s₁) := ⟨sound, sound.root, part⟩
  obtain ⟨a, s₂, unlinked⟩ : ∃ a s₂, L.roomy uid gid (.unlink (L.slot L.inodeAreaStart) c) s₁ a s₂ :=
    ⟨_, _, ⟨trivial, trivial⟩, fun none => (by cases none), rfl⟩
  obtain ⟨t, served, tree, later⟩ := young.step bitmap unlinks not_false unlinked
  simp only [service, found] at served
  obtain ⟨rfl, rfl⟩ := served
  have young₂ := later n ⟨young.small.few, young.small.empty, young.small.typed⟩
  have isDir₂ : (L.fileTree s₂).kind dir = some kDirectory := by
    rw [tree]
    exact isDir
  -- and gets the new one, if it is free
  obtain ⟨b, s₃, linked⟩ : ∃ b s₃, L.roomy uid gid (.link dir d x (!flags.testBit 0)) s₂ b s₃ :=
    ⟨_, _, young₂.covers_link bitmap few data isDir₂ d x _, fun none => (by cases none), rfl⟩
  obtain ⟨v₂, gone⟩ := v₁.removePrefix_done (isPart_one part)
  obtain ⟨v₃, gone'⟩ := v₂.removePrefix_done parts
  refine ⟨s₃, v₃, ?_⟩
  rw [Vfs.sbRename, canonical_concat, canonical_concat, splitFromLastSlash_pathOf [] part.component,
    splitFromLastSlash_pathOf ds (last_part parts).component]
  dsimp only
  rw [resolve_slash root]
  refine runs_bind.mpr ⟨_, _, .done, ?_⟩
  rw [if_neg rootSlot_isValid]
  refine runs_bind.mpr ⟨_, s₁, way, runs_bind.mpr ⟨_, s₂, runs_call.mpr unlinked, ?_⟩⟩
  rw [plain]
  refine runs_bind.mpr ⟨(), s₃, ?_, ?_⟩
  · rw [Vfs.linkIn, if_neg valid]
    exact runs_bind.mpr ⟨b, s₃, runs_call.mpr linked, .done⟩
  · rw [← canonical_concat, ← canonical_concat, gone]
    refine runs_bind.mpr ⟨_, _, .done, ?_⟩
    rw [gone']
    exact runs_bind.mpr ⟨_, _, .done, .done⟩

end Layout.Young

theorem FreshRoot.young (fresh : FreshRoot L s) (device : L.areaEnd ≤ s.count) (failId : s.count ≤ kFailId) :
    L.Young s 1 :=
  ⟨(fresh.mounted device failId).disk, fresh.tight, fresh.fileTree ▸ new_small _⟩

end

end Sbfs
