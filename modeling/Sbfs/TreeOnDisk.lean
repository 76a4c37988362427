import Sbfs.FileContents

/-! # The tree of files on the disk

`Layout.fileTree` is the tree that a disk stands for.  On a disk whose link counts are right the methods of
`Inode` do to it what `FileTree.service` says, for the requests that fit and find enough space
(`OnDisk.step`): the service of the tree simulates the one of the disk. -/

namespace Sbfs

open PackedMap

namespace Layout

variable (L : Layout)

/-- The id that belongs to a place in the inode area. -/
def idOf (p : Position) : Nat := L.formatted.getDiskInodeId p

/-- A function of inode ids as a function of places. -/
def atPlace {β : Type} (f : Nat → β) (other : β) (p : Position) : β :=
  if p = L.slot (L.idOf p) then f (L.idOf p) else other

def kindAt (s : Disk) (i : Nat) : Option DiskInodeType :=
  if L.Allocated s i then some (L.inode s.blocks i).type else none

def linksAt (s : Disk) (i : Nat) : Nat := if L.Allocated s i then (L.links s.blocks i).toNat else 0

def nameAt (s : Disk) (i : Nat) : Name → Option Nat := find (L.entriesOf s i)

def contentAt (s : Disk) (i : Nat) : List UInt8 :=
  if L.Allocated s i ∧ (L.inode s.blocks i).type = kFile then (L.inode s.blocks i).contentOf s.blocks else []

/-- The entries of a directory by their names. -/
def named (names : Nat → Name → Option Nat) (p : Position) (name : Name) : Option Position :=
  (L.atPlace names (fun _ => none) p name).map L.slot

/-- The tree that the disk stands for. -/
def fileTree (s : Disk) : FileTree where
  root := L.slot L.inodeAreaStart
  find p name := if isDot name then none else L.named (L.nameAt s) p name
  kind := L.atPlace (L.kindAt s) none
  links := L.atPlace (L.linksAt s) 0
  dots p name := if isDot name then L.named (L.nameAt s) p name else none
  content := L.atPlace (L.contentAt s) []

variable {L} {β : Type} {f : Nat → β} {other v : β} {i a x : Nat} {s s' : Disk} {p q : Position} {name : Name}

theorem idOf_slot (slotId : L.SlotId i) : L.idOf (L.slot i) = i := diskInodeId_slot slotId

theorem slot_inj (slotI : L.SlotId i) (slotX : L.SlotId x) (same : L.slot i = L.slot x) : i = x := by
  rw [← idOf_slot slotI, same, idOf_slot slotX]

theorem atPlace_slot (slotId : L.SlotId i) : L.atPlace f other (L.slot i) = f i := by
  rw [atPlace, idOf_slot slotId, if_pos rfl]

theorem atPlace_update (slotId : L.SlotId i) :
    L.atPlace (Function.update f i v) other = Function.update (L.atPlace f other) (L.slot i) v := by
  funext p
  rw [Function.update_apply]
  by_cases here : p = L.slot i
  · rw [if_pos here, here, atPlace_slot slotId, Function.update_self]
  · rw [if_neg here, atPlace, atPlace]
    split
    next place =>
      have ne : L.idOf p ≠ i := fun same => here (by rw [place, same])
      rw [Function.update_of_ne ne]
    next => rfl

theorem kind_slot (slotId : L.SlotId i) : (L.fileTree s).kind (L.slot i) = L.kindAt s i := atPlace_slot slotId

theorem links_slot (slotId : L.SlotId i) : (L.fileTree s).links (L.slot i) = L.linksAt s i := atPlace_slot slotId

theorem content_slot (slotId : L.SlotId i) : (L.fileTree s).content (L.slot i) = L.contentAt s i := atPlace_slot slotId

theorem find_slot (slotId : L.SlotId a) (notDot : isDot name = false) :
    (L.fileTree s).find (L.slot a) name = (L.nameAt s a name).map L.slot := by
  change (if isDot name then none else L.named (L.nameAt s) (L.slot a) name) = _
  rw [notDot, if_neg Bool.false_ne_true, named, atPlace_slot slotId]

/-- An allocated place is a slot. -/
theorem kind_some {type : DiskInodeType} (kind : (L.fileTree s).kind p = some type) :
    ∃ i, p = L.slot i ∧ L.Allocated s i ∧ (L.inode s.blocks i).type = type := by
  change L.atPlace (L.kindAt s) none p = some type at kind
  rw [atPlace] at kind
  split at kind
  next place =>
    rw [kindAt] at kind
    split at kind
    next allocated => exact ⟨L.idOf p, place, allocated, Option.some.inj kind⟩
    next => cases kind
  next => cases kind

theorem named_at (slotId : L.SlotId a) (names : Nat → Name → Option Nat) (g : Name → Option Nat) (p : Position)
    (l : Name) : L.named (Function.update names a g) p l = if p = L.slot a then (g l).map L.slot else L.named names p l := by
  rw [named, atPlace_update slotId, Function.update_apply]
  split
  next => rfl
  next => rfl

theorem named_update (slotId : L.SlotId a) (names : Nat → Name → Option Nat) (v : Option Nat) (p : Position) (l : Name) :
    L.named (Function.update names a (Function.update (names a) name v)) p l =
      NamedTree.setEdge (L.named names) (L.slot a) name (v.map L.slot) p l := by
  rw [named_at slotId]
  by_cases entry : p = L.slot a ∧ l = name
  · rw [entry.1, entry.2, if_pos rfl, Function.update_self, NamedTree.setEdge_same]
  · rw [NamedTree.setEdge_ne _ entry]
    split
    next here =>
      have ne : l ≠ name := fun same => entry ⟨here, same⟩
      rw [Function.update_of_ne ne, here, named, atPlace_slot slotId]
    next => rfl

/-- An entry of one directory and one link count have changed. -/
theorem fileTree_setEntry (slotA : L.SlotId a) (slotX : L.SlotId x) (notDot : isDot name = false) {v : Option Nat}
    {g : Nat → Nat} (kinds : L.kindAt s' = L.kindAt s)
    (links : L.linksAt s' = Function.update (L.linksAt s) x (g (L.linksAt s x)))
    (names : L.nameAt s' = Function.update (L.nameAt s) a (Function.update (L.nameAt s a) name v))
    (contents : L.contentAt s' = L.contentAt s) :
    L.fileTree s' = ((L.fileTree s).setEntry (L.slot a) name (v.map L.slot)).recount (L.slot x) g := by
  refine FileTree.eq_of rfl (fun p l => ?_) ?_ ?_ (fun p l => ?_) (congrArg (L.atPlace · []) contents)
  · change (if isDot l then none else L.named (L.nameAt s') p l) =
      NamedTree.setEdge (L.fileTree s).find (L.slot a) name (v.map L.slot) p l
    rw [names, named_update slotA]
    by_cases entry : p = L.slot a ∧ l = name
    · rw [entry.1, entry.2, notDot, if_neg Bool.false_ne_true, NamedTree.setEdge_same, NamedTree.setEdge_same]
    · rw [NamedTree.setEdge_ne _ entry, NamedTree.setEdge_ne _ entry]
      rfl
  · exact congrArg (L.atPlace · none) kinds
  · change L.atPlace (L.linksAt s') 0 = Function.update (L.atPlace (L.linksAt s) 0) (L.slot x) _
    have count : L.atPlace (L.linksAt s) 0 (L.slot x) = L.linksAt s x := atPlace_slot slotX
    rw [links, atPlace_update slotX, ← count]
    rfl
  · change (if isDot l then L.named (L.nameAt s') p l else none) = if isDot l then L.named (L.nameAt s) p l else none
    rw [names, named_update slotA]
    split
    next dot =>
      refine NamedTree.setEdge_ne _ fun entry => ?_
      rw [entry.2, notDot] at dot
      cases dot
    next => rfl

/-- A new inode `x` whose entries are `dots`. -/
theorem fileTree_create (slotA : L.SlotId a) (slotX : L.SlotId x) (ne : a ≠ x) (notDot : isDot name = false)
    {type : DiskInodeType} {dots : Name → Option Nat} (kinds : L.kindAt s' = Function.update (L.kindAt s) x (some type))
    (links : L.linksAt s' = Function.update (L.linksAt s) x 1)
    (names : L.nameAt s' = Function.update (Function.update (L.nameAt s) a (Function.update (L.nameAt s a) name (some x)))
      x dots)
    (contents : L.contentAt s' = Function.update (L.contentAt s) x [])
    (only : ∀ l, isDot l = false → dots l = none)
    (made : ∀ l, (dots l).map L.slot = (if type = kDirectory then dotsOf (L.slot x) (L.slot a) else fun _ => none) l) :
    L.fileTree s' = (L.fileTree s).create (L.slot a) name type (L.slot x) := by
  have apart : L.slot x ≠ L.slot a := fun same => ne (slot_inj slotA slotX same.symm)
  refine FileTree.eq_of rfl (fun p l => ?_) ?_ ?_ (fun p l => ?_) (by
    change L.atPlace (L.contentAt s') [] = Function.update (L.atPlace (L.contentAt s) []) (L.slot x) []
    rw [contents, atPlace_update slotX])
  · change (if isDot l then none else L.named (L.nameAt s') p l) =
      NamedTree.setEdge (NamedTree.clearNode (L.fileTree s).find (L.slot x)) (L.slot a) name (some (L.slot x)) p l
    rw [names, named_at slotX, named_update slotA]
    by_cases new : p = L.slot x
    · have off : ¬ (L.slot x = L.slot a ∧ l = name) := fun entry => apart entry.1
      rw [if_pos new, new, NamedTree.setEdge_ne _ off, NamedTree.clearNode, Function.update_self]
      split
      next => rfl
      next other => rw [only l (Bool.not_eq_true _ ▸ other), Option.map_none]
    · rw [if_neg new]
      by_cases entry : p = L.slot a ∧ l = name
      · rw [entry.1, entry.2, notDot, if_neg Bool.false_ne_true, NamedTree.setEdge_same, NamedTree.setEdge_same,
          Option.map_some]
      · rw [NamedTree.setEdge_ne _ entry, NamedTree.setEdge_ne _ entry, NamedTree.clearNode_ne new]
        rfl
  · change L.atPlace (L.kindAt s') none = Function.update (L.atPlace (L.kindAt s) none) (L.slot x) _
    rw [kinds, atPlace_update slotX]
  · change L.atPlace (L.linksAt s') 0 = Function.update (L.atPlace (L.linksAt s) 0) (L.slot x) _
    rw [links, atPlace_update slotX]
  · change (if isDot l then L.named (L.nameAt s') p l else none) = Function.update (L.fileTree s).dots (L.slot x) _ p l
    rw [names, named_at slotX, named_update slotA, Function.update_apply]
    by_cases new : p = L.slot x
    · rw [if_pos new, if_pos new, ← made]
      split
      next => rfl
      next other => rw [only l (Bool.not_eq_true _ ▸ other), Option.map_none]
    · rw [if_neg new, if_neg new]
      change _ = if isDot l then L.named (L.nameAt s) p l else none
      split
      next dot =>
        refine NamedTree.setEdge_ne _ fun entry => ?_
        rw [entry.2, notDot] at dot
        cases dot
      next => rfl

/-- Inode `x` without entries is freed together with its name. -/
theorem fileTree_free (slotA : L.SlotId a) (slotX : L.SlotId x) (notDot : isDot name = false)
    (empty : ∀ l, isDot l = false → L.nameAt s x l = none) (kinds : L.kindAt s' = Function.update (L.kindAt s) x none)
    (links : L.linksAt s' = Function.update (L.linksAt s) x 0)
    (names : L.nameAt s' = Function.update (Function.update (L.nameAt s) a (Function.update (L.nameAt s a) name none))
      x fun _ => none)
    (contents : L.contentAt s' = Function.update (L.contentAt s) x []) :
    L.fileTree s' = ((L.fileTree s).setEntry (L.slot a) name none).free (L.slot x) := by
  refine FileTree.eq_of rfl (fun p l => ?_) ?_ ?_ (fun p l => ?_) (by
    change L.atPlace (L.contentAt s') [] = Function.update (L.atPlace (L.contentAt s) []) (L.slot x) []
    rw [contents, atPlace_update slotX])
  · change (if isDot l then none else L.named (L.nameAt s') p l) =
      NamedTree.setEdge (L.fileTree s).find (L.slot a) name none p l
    have kept : ∀ m, (L.fileTree s).find (L.slot x) m = none := by
      intro m
      change (if isDot m then none else L.named (L.nameAt s) (L.slot x) m) = none
      split
      next => rfl
      next other => rw [named, atPlace_slot slotX, empty m (Bool.not_eq_true _ ▸ other), Option.map_none]
    rw [names, named_at slotX, named_update slotA]
    by_cases entry : p = L.slot a ∧ l = name
    · rw [entry.1, entry.2, notDot, if_neg Bool.false_ne_true, NamedTree.setEdge_same, NamedTree.setEdge_same,
        Option.map_none, ite_self]
    · rw [NamedTree.setEdge_ne _ entry, NamedTree.setEdge_ne _ entry]
      split
      next dot =>
        change none = if isDot l then none else _
        rw [if_pos dot]
      next other =>
        split
        next gone => rw [gone, kept, Option.map_none]
        next =>
          change _ = if isDot l then none else _
          rw [if_neg other]
  · change L.atPlace (L.kindAt s') none = Function.update (L.atPlace (L.kindAt s) none) (L.slot x) _
    rw [kinds, atPlace_update slotX]
  · change L.atPlace (L.linksAt s') 0 = Function.update (L.atPlace (L.linksAt s) 0) (L.slot x) _
    rw [links, atPlace_update slotX]
  · change (if isDot l then L.named (L.nameAt s') p l else none) = Function.update (L.fileTree s).dots (L.slot x) _ p l
    rw [names, named_at slotX, named_update slotA, Function.update_apply]
    by_cases gone : p = L.slot x
    · rw [if_pos gone, if_pos gone, Option.map_none, ite_self]
    · rw [if_neg gone, if_neg gone]
      change _ = if isDot l then L.named (L.nameAt s) p l else none
      split
      next dot =>
        refine NamedTree.setEdge_ne _ fun entry => ?_
        rw [entry.2, notDot] at dot
        cases dot
      next => rfl

end Layout

/-! ## Steps -/

section

variable {L : Layout} {refs : Nat → Nat} {s s₁ s' : Disk} {a j n x : Nat} {es : List (Name × Nat)} {count : Nat → UInt16}
  {c : UInt16} {name : Name}

namespace Layout

theorem contentAt_file (here : L.Allocated s j) (file : (L.inode s.blocks j).type = kFile) :
    L.contentAt s j = (L.inode s.blocks j).contentOf s.blocks := if_pos ⟨here, file⟩

theorem contentAt_free (free : ¬ L.Allocated s j) : L.contentAt s j = [] := if_neg fun both => free both.1

theorem contentAt_dir (type : (L.inode s.blocks j).type = kDirectory) : L.contentAt s j = [] := by
  refine if_neg fun both => ?_
  rw [type] at both
  exact absurd both.2 (by decide)

theorem contentAt_kept (allocated : L.Allocated s' j ↔ L.Allocated s j)
    (type : (L.inode s'.blocks j).type = (L.inode s.blocks j).type)
    (size : (L.inode s'.blocks j).size = (L.inode s.blocks j).size) (bytes : ∀ i, i < (L.inode s.blocks j).size.toNat →
      (L.inode s'.blocks j).byte s'.blocks i = (L.inode s.blocks j).byte s.blocks i) :
    L.contentAt s' j = L.contentAt s j := by
  rw [contentAt, contentAt, type, DiskInode.contentOf_congr size bytes]
  exact if_congr (and_congr allocated Iff.rfl) rfl rfl

end Layout

theorem Recounted.contentAt (same : Recounted L j c s s') (allocated : L.Allocated s' j ↔ L.Allocated s j) :
    L.contentAt s' j = L.contentAt s j :=
  Layout.contentAt_kept allocated (by rw [same.inode]) same.size same.bytes

/-- No directory and no link count is different, and the same inodes are allocated. -/
structure DirsKept (L : Layout) (s s' : Disk) : Prop where
  state : Populated L s' (L.Allocated s)
  marks : SameMarks L s s'
  type : ∀ j, L.Allocated s j → (L.inode s'.blocks j).type = (L.inode s.blocks j).type
  links : ∀ j, L.Allocated s j → L.links s'.blocks j = L.links s.blocks j
  entries : ∀ j, L.Allocated s j → (L.inode s.blocks j).type = kDirectory →
    IsDirectory (L.inode s'.blocks j) s'.blocks ∧
      (L.inode s'.blocks j).entries s'.blocks = (L.inode s.blocks j).entries s.blocks

/-- And the files have the bytes that they had, the same blocks are lost, and block 0 has not been written. -/
structure TreeKept (L : Layout) (s s' : Disk) : Prop extends DirsKept L s s' where
  content : ∀ j, L.Allocated s j → L.contentAt s' j = L.contentAt s j
  lost : ∀ b, L.Lost (L.Allocated s) s' b ↔ L.Lost (L.Allocated s) s b
  keeps : KeepsSuper s s'

namespace DirsKept

theorem allocated (kept : DirsKept L s s') (j : Nat) : L.Allocated s' j ↔ L.Allocated s j := kept.marks.used j

theorem entriesOf (kept : DirsKept L s s') (j : Nat) : L.entriesOf s' j = L.entriesOf s j := by
  rw [Layout.entriesOf, Layout.entriesOf]
  by_cases here : L.Allocated s j
  · rw [kept.type j here]
    by_cases isDir : (L.inode s.blocks j).type = kDirectory
    · rw [if_pos ⟨(kept.allocated j).mpr here, isDir⟩, if_pos ⟨here, isDir⟩, (kept.entries j here isDir).2]
    · rw [if_neg fun both => isDir both.2, if_neg fun both => isDir both.2]
  · rw [if_neg fun both => here ((kept.allocated j).mp both.1), if_neg fun both => here both.1]

/-- The tree is the same but for the bytes. -/
theorem fileTree (kept : DirsKept L s s') :
    L.fileTree s' = { L.fileTree s with content := L.atPlace (L.contentAt s') [] } := by
  have kinds : L.kindAt s' = L.kindAt s := by
    funext j
    rw [Layout.kindAt, Layout.kindAt]
    by_cases here : L.Allocated s j
    · rw [if_pos ((kept.allocated j).mpr here), if_pos here, kept.type j here]
    · rw [if_neg fun there => here ((kept.allocated j).mp there), if_neg here]
  have links : L.linksAt s' = L.linksAt s := by
    funext j
    rw [Layout.linksAt, Layout.linksAt]
    by_cases here : L.Allocated s j
    · rw [if_pos ((kept.allocated j).mpr here), if_pos here, kept.links j here]
    · rw [if_neg fun there => here ((kept.allocated j).mp there), if_neg here]
  have names : L.nameAt s' = L.nameAt s := funext fun j => congrArg PackedMap.find (kept.entriesOf j)
  rw [Layout.fileTree, Layout.fileTree, kinds, links, names]

/-- One file has other bytes. -/
theorem setContent (kept : DirsKept L s s') (slotN : L.SlotId n)
    (others : ∀ j, L.Allocated s j → j ≠ n → L.contentAt s' j = L.contentAt s j) :
    L.fileTree s' = (L.fileTree s).setContent (L.slot n) (L.contentAt s' n) := by
  have contents : L.contentAt s' = Function.update (L.contentAt s) n (L.contentAt s' n) := by
    funext j
    rw [Function.update_apply]
    split
    next is => rw [is]
    next ne =>
      by_cases here : L.Allocated s j
      · exact others j here ne
      · rw [Layout.contentAt_free here, Layout.contentAt_free fun there => here ((kept.allocated j).mp there)]
  rw [kept.fileTree, contents, Layout.atPlace_update slotN, Function.update_self]
  rfl

theorem counted (kept : DirsKept L s s') (ok : Counted L refs s) : Counted L refs s' where
  state := kept.state.subset fun j there => (kept.allocated j).mp there
  dirs := fun j there isDir => by
    have here := (kept.allocated j).mp there
    rw [kept.type j here] at isDir
    exact (kept.entries j here isDir).1
  targets := fun i x member notDot => by
    rw [kept.entriesOf] at member
    exact (kept.allocated _).mpr (ok.targets i x member notDot)
  outside := fun j free => ok.outside j fun here => free ((kept.allocated j).mpr here)
  law := fun j there => by
    have here := (kept.allocated j).mp there
    have names : nameCount L s' j = nameCount L s j :=
      Finset.sum_congr rfl fun i _ => by rw [kept.entriesOf]
    rw [kept.links j here, names]
    exact ok.law j here

theorem of_fileStep (ok : Counted L refs s) (file : (L.inode s.blocks n).type = kFile)
    (step : FileStep L (L.Allocated s) n s s') : DirsKept L s s' where
  state := step.state
  marks := step.marks
  type := fun j here => by
    by_cases is : j = n
    · rw [is, step.type]
    · rw [(step.others j here is).inode]
  links := fun j here => by
    by_cases is : j = n
    · rw [is, step.linkCnt]
    · rw [Layout.links, (step.others j here is).inode, Layout.links]
  entries := fun j here isDir => by
    have ne : j ≠ n := by
      rintro rfl
      rw [file] at isDir
      exact absurd isDir (by decide)
    have recounted := Recounted.of_sameFile (step.others j here ne)
    exact ⟨recounted.isDirectory (ok.dirs j here isDir), recounted.entries⟩

end DirsKept

/-- A step on one file changes the bytes of that file only. -/
theorem FileStep.setContent (ok : Counted L refs s) (here : L.Allocated s n) (file : (L.inode s.blocks n).type = kFile)
    (step : FileStep L (L.Allocated s) n s s') :
    Counted L refs s' ∧
      L.fileTree s' = (L.fileTree s).setContent (L.slot n) ((L.inode s'.blocks n).contentOf s'.blocks) := by
  have kept := DirsKept.of_fileStep ok file step
  refine ⟨kept.counted ok, ?_⟩
  rw [kept.setContent (ok.state.slots n here) fun j there ne =>
    (Recounted.of_sameFile (step.others j there ne)).contentAt (kept.allocated j),
    Layout.contentAt_file ((kept.allocated n).mpr here) (step.type.trans file)]

namespace TreeKept

theorem fileTree (kept : TreeKept L s s') : L.fileTree s' = L.fileTree s := by
  have contents : L.contentAt s' = L.contentAt s := by
    funext j
    by_cases here : L.Allocated s j
    · exact kept.content j here
    · rw [Layout.contentAt_free here, Layout.contentAt_free fun there => here ((kept.allocated j).mp there)]
  rw [kept.toDirsKept.fileTree, contents]
  rfl

theorem of_quiet (ok : Counted L refs s) (quiet : Touches (fun _ => False) s s') : TreeKept L s s' := by
  obtain ⟨state, same⟩ := ok.state.underneath (quiet.mono fun _ => False.elim)
  have marks : SameMarks L s s' := .of_touches quiet fun _ => False.elim
  refine { state, marks, type := ?type, links := ?links, entries := ?entries, content := ?content, lost := ?lost,
           keeps := .of_quiet quiet }
  case type => exact fun j here => by rw [(same j here).inode]
  case links => exact fun j here => by rw [Layout.links, (same j here).inode, Layout.links]
  case entries =>
    intro j here isDir
    have recounted := Recounted.of_sameFile (same j here)
    exact ⟨recounted.isDirectory (ok.dirs j here isDir), recounted.entries⟩
  case content => exact fun j here => (Recounted.of_sameFile (same j here)).contentAt (marks.used j)
  case lost =>
    intro b
    rw [Layout.Lost, Layout.Lost, quiet.quiet]

/-- The record of inode `n` has been replaced by one with the same map. -/
theorem of_resaved (ok : Counted L refs s) (here : L.Allocated s n) (touches : Touches (· = (L.slot n).blockId) s s')
    (copy : SameMap (L.inode s.blocks n) (L.inode s'.blocks n))
    (type : (L.inode s'.blocks n).type = (L.inode s.blocks n).type) (linkCnt : L.links s'.blocks n = L.links s.blocks n)
    (others : ∀ j, L.SlotId j → j ≠ n → L.inode s'.blocks j = L.inode s.blocks j) : TreeKept L s s' := by
  have slotId := ok.state.slots n here
  have map := ok.state.volume.map n here
  have low : ∀ b, b = (L.slot n).blockId → b < L.formatted.dataBitmap.startBlockId :=
    fun b is => is ▸ Layout.slot_low slotId
  obtain ⟨below, -, -⟩ := Evolved.of_below (copy.map map) ok.state.volume.segment touches low
  obtain ⟨state', same⟩ := ok.state.step here (copy.evolved below) low rfl (L.links s.blocks) fun j there ne =>
    (others j (ok.state.slots j there) ne).trans rfl
  have unmoved := ok.state.volume.below_unmoved (touches.mono low) here
  have marks : SameMarks L s s' := .of_touches touches fun b is => .inr (is ▸ Layout.slot_area slotId)
  refine { state := state', marks, type := ?type, links := ?links, entries := ?entries, content := ?content, lost := ?lost,
           keeps := touches.mono ?keeps }
  case keeps =>
    intro b is
    have area := Layout.slot_area slotId
    rw [Layout.inodeAreaStart] at area
    omega
  case type =>
    intro j there
    by_cases is : j = n
    · rw [is, type]
    · rw [(same j there is).inode]
  case links =>
    intro j there
    by_cases is : j = n
    · rw [is, linkCnt]
    · rw [Layout.links, (same j there is).inode]
  case entries =>
    intro j there isDir
    by_cases is : j = n
    · rw [is] at isDir ⊢
      -- of the inode itself the record has changed, and its blocks are as they were
      have entries := (copy.entries s'.blocks).trans unmoved.entries
      have dir := ok.dirs n here isDir
      refine ⟨⟨type.trans isDir, ?_, ?_, ?_⟩, entries⟩
      · rw [entries, copy.size]
        exact dir.aligned
      · rw [entries]
        exact dir.names
      · rw [entries]
        exact dir.distinct
    · exact ⟨(same j there is).isDirectory (ok.dirs j there isDir), (same j there is).entries⟩
  case content =>
    intro j there
    by_cases is : j = n
    · subst is
      refine Layout.contentAt_kept (marks.used j) type copy.size fun i inside => ?_
      rw [copy.byte, unmoved.bytes i inside]
    · exact (same j there is).contentAt (marks.used j)
  case lost =>
    refine ok.state.below_lost (touches.mono low) fun j there => ?_
    by_cases is : j = n
    · exact is ▸ copy
    · rw [(same j there is).inode]
      exact ⟨rfl, rfl, rfl, rfl⟩

theorem of_looked (ok : Counted L refs s) (here : L.Allocated s n) (looked : Looked L n s s') : TreeKept L s s' := by
  refine of_resaved ok here looked.touches (.of_retimed looked.inode) ?_ ?_ looked.others
  · rw [looked.inode]
  · rw [Layout.links, looked.inode, Layout.links]

theorem trans (first : TreeKept L s s₁) (second : TreeKept L s₁ s') : TreeKept L s s' where
  state := second.state.subset fun j there => (first.allocated j).mpr there
  marks := first.marks.trans second.marks
  type := fun j here => (second.type j ((first.allocated j).mpr here)).trans (first.type j here)
  links := fun j here => (second.links j ((first.allocated j).mpr here)).trans (first.links j here)
  entries := fun j here isDir => by
    have there := (first.allocated j).mpr here
    obtain ⟨dir, entries⟩ := second.entries j there ((first.type j here).trans isDir)
    exact ⟨dir, entries.trans (first.entries j here isDir).2⟩
  content := fun j here => (second.content j ((first.allocated j).mpr here)).trans (first.content j here)
  lost := fun b => by
    have live : L.Allocated s₁ = L.Allocated s := funext fun j => propext (first.allocated j)
    exact (live ▸ second.lost b).trans (first.lost b)
  keeps := first.keeps.trans second.keeps

end TreeKept

/-- What the tree has of a directory whose entries and of inodes whose link counts have changed. -/
theorem Edited.places (on : CallOn L s a) (edited : Edited L (L.Allocated s) a es count s s') (marks : SameMarks L s s') :
    L.kindAt s' = L.kindAt s ∧ (∀ j, L.linksAt s' j = if L.Allocated s j then (count j).toNat else 0) ∧
      L.nameAt s' = Function.update (L.nameAt s) a (find es) ∧ L.contentAt s' = L.contentAt s := by
  have allocated : ∀ j, L.Allocated s' j ↔ L.Allocated s j := marks.used
  obtain ⟨change, -⟩ := Counted.change_of_edited on edited marks
  refine ⟨funext fun j => ?_, fun j => ?_, funext fun j => ?_, funext fun j => ?_⟩
  · rw [Layout.kindAt, Layout.kindAt]
    by_cases here : L.Allocated s j
    · rw [if_pos ((allocated j).mpr here), if_pos here]
      by_cases is : j = a
      · rw [is, edited.dir.type, on.type]
      · rw [(edited.others j here is).inode]
    · rw [if_neg fun there => here ((allocated j).mp there), if_neg here]
  · rw [Layout.linksAt]
    by_cases here : L.Allocated s j
    · rw [if_pos ((allocated j).mpr here), if_pos here, edited.links here]
    · rw [if_neg fun there => here ((allocated j).mp there), if_neg here]
  · rw [Layout.nameAt, Function.update_apply]
    split
    next is => rw [is, change.entriesOf_self]
    next ne =>
      by_cases here : L.Allocated s j
      · rw [change.entriesOf_kept ne here ((allocated j).mpr here), Layout.nameAt]
      · have none : ∀ {s}, ¬ L.Allocated s j → L.entriesOf s j = [] := fun free => if_neg fun both => free both.1
        rw [none fun there => here ((allocated j).mp there), Layout.nameAt, none here]
  · by_cases is : j = a
    · rw [is, Layout.contentAt_dir on.type, Layout.contentAt_dir edited.dir.type]
    · by_cases here : L.Allocated s j
      · exact (edited.others j here is).contentAt (allocated j)
      · rw [Layout.contentAt_free here, Layout.contentAt_free fun there => here ((allocated j).mp there)]

end

end Sbfs
