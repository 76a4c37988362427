import Sbfs.DirectoryMap
import Mathlib.Algebra.Order.BigOperators.Group.Finset

/-! # Link counts

The law that the methods of directories should keep: the link count of an allocated inode is
the number of entries that name it, over all directories, `.` and `..` aside (`Counted`).
`refs` are the references from elsewhere: the super block has one to the root. -/

namespace Sbfs

open Slot PackedMap

/-- `.` and `..`. -/
def isDot (name : Name) : Bool := name == [46] || name == [46, 46]

/-- How many of the entries name inode `j`. -/
def namesIn (es : List (Name × Nat)) (j : Nat) : Nat := es.countP fun x => !isDot x.1 && x.2 == j

instance (bm : Bitmap) (D : Nat → Block) (i : Nat) : Decidable (bm.Used D i) :=
  inferInstanceAs (Decidable ((bm.dataSegmentOffset ≤ i ∧ i < bm.dataSegmentOffset + bm.capacity) ∧ _))

/-- `i` is an allocated inode. -/
def Layout.Allocated (L : Layout) (s : Disk) (i : Nat) : Prop := L.formatted.inodeBitmap.Used s.blocks i

instance (L : Layout) (s : Disk) (i : Nat) : Decidable (L.Allocated s i) :=
  inferInstanceAs (Decidable (L.formatted.inodeBitmap.Used s.blocks i))

/-- The entries of inode `i`, if it is an allocated directory. -/
def Layout.entriesOf (L : Layout) (s : Disk) (i : Nat) : List (Name × Nat) :=
  if L.Allocated s i ∧ (L.inode s.blocks i).type = kDirectory then (L.inode s.blocks i).entries s.blocks else []

/-- How many entries of all directories name inode `j`. -/
def nameCount (L : Layout) (s : Disk) (j : Nat) : Nat :=
  ∑ i ∈ Finset.range (32768 * L.inodeBitmapBlocks), namesIn (L.entriesOf s i) j

/-- The law, and what it rests on: the allocated inodes have slots and own disjoint sets of
blocks, and entries name allocated inodes. -/
structure Counted (L : Layout) (refs : Nat → Nat) (s : Disk) : Prop where
  state : Populated L s (L.Allocated s)
  dirs : ∀ i, L.Allocated s i → (L.inode s.blocks i).type = kDirectory → IsDirectory (L.inode s.blocks i) s.blocks
  targets : ∀ i, ∀ x ∈ L.entriesOf s i, isDot x.1 = false → L.Allocated s x.2
  outside : ∀ j, ¬ L.Allocated s j → refs j = 0
  law : ∀ j, L.Allocated s j → (L.links s.blocks j).toNat = refs j + nameCount L s j

/-! ## Counting -/

section

variable {es : List (Name × Nat)} {name : Name} {e j t : Nat}

theorem namesIn_append (es : List (Name × Nat)) (notDot : isDot name = false) (t j : Nat) :
    namesIn (es ++ [(name, t)]) j = namesIn es j + if t = j then 1 else 0 := by
  rw [namesIn, List.countP_append, List.countP_singleton, namesIn]
  simp [notDot]

theorem namesIn_removeAt (here : es[e]? = some (name, t)) (notDot : isDot name = false) (j : Nat) :
    namesIn (removeAt es e) j + (if t = j then 1 else 0) = namesIn es j := by
  obtain ⟨inside, eq⟩ := List.getElem?_eq_some_iff.mp here
  have count := countP_removeAt (fun x => !isDot x.1 && x.2 == j) inside
  rw [eq] at count
  simpa [notDot, namesIn] using count

theorem namesIn_pos {x : Name × Nat} (member : x ∈ es) (notDot : isDot x.1 = false) : 0 < namesIn es x.2 := by
  rw [namesIn, List.countP_pos_iff]
  exact ⟨x, member, by simp [notDot]⟩

theorem namesIn_set {x : Nat} (here : es[e]? = some (name, x)) (notDot : isDot name = false) (t j : Nat) :
    namesIn (es.set e (name, t)) j + (if x = j then 1 else 0) = namesIn es j + if t = j then 1 else 0 := by
  obtain ⟨inside, eq⟩ := List.getElem?_eq_some_iff.mp here
  have pos : (if x = j then 1 else 0) ≤ namesIn es j := by
    split
    next is => exact is ▸ namesIn_pos (List.mem_of_getElem? here) notDot
    next => exact Nat.zero_le _
  have count := List.countP_set (p := fun x : Name × Nat => !isDot x.1 && x.2 == j) (a := (name, t)) inside
  rw [eq] at count
  simp only [notDot, Bool.not_false, Bool.true_and, beq_iff_eq] at count
  rw [namesIn, count]
  rw [namesIn] at pos ⊢
  omega

theorem namesIn_eq_zero (dots : ∀ x ∈ es, isDot x.1 = true) (j : Nat) : namesIn es j = 0 := by
  rw [namesIn, List.countP_eq_zero]
  intro x member
  simp [dots x member]

/-- One summand changes. -/
theorem sum_change {f g : Nat → Nat} {N a : Nat} (inside : a < N) (same : ∀ i, i ≠ a → g i = f i) :
    (∑ i ∈ Finset.range N, g i) + f a = (∑ i ∈ Finset.range N, f i) + g a := by
  have member := Finset.mem_range.mpr inside
  have rest : ∑ i ∈ (Finset.range N).erase a, g i = ∑ i ∈ (Finset.range N).erase a, f i :=
    Finset.sum_congr rfl fun i there => same i (Finset.ne_of_mem_erase there)
  rw [← Finset.add_sum_erase _ g member, ← Finset.add_sum_erase _ f member, rest]
  omega

end

section

variable {L : Layout} {refs : Nat → Nat} {s s' : Disk} {a i j : Nat} {es : List (Name × Nat)}

theorem Layout.entriesOf_dir (allocated : L.Allocated s i) (type : (L.inode s.blocks i).type = kDirectory) :
    L.entriesOf s i = (L.inode s.blocks i).entries s.blocks := if_pos ⟨allocated, type⟩

theorem mem_entriesOf {x : Name × Nat} (member : x ∈ L.entriesOf s i) :
    L.Allocated s i ∧ (L.inode s.blocks i).type = kDirectory ∧ x ∈ (L.inode s.blocks i).entries s.blocks := by
  rw [Layout.entriesOf] at member
  split at member
  next both => exact ⟨both.1, both.2, member⟩
  next => exact absurd member List.not_mem_nil

/-- An entry is counted. -/
theorem nameCount_pos (slotId : L.SlotId i) {x : Name × Nat} (member : x ∈ L.entriesOf s i)
    (notDot : isDot x.1 = false) : 0 < nameCount L s x.2 := by
  have one := namesIn_pos member notDot
  have all := Finset.single_le_sum (f := fun i => namesIn (L.entriesOf s i) x.2) (fun _ _ => Nat.zero_le _)
    (Finset.mem_range.mpr slotId.1)
  exact Nat.lt_of_lt_of_le one all

/-- A change of directory `a`, in which inodes may also have been allocated or freed whose
entries are dots. -/
structure DirChange (L : Layout) (a : Nat) (es : List (Name × Nat)) (s s' : Disk) : Prop where
  state : Populated L s' (L.Allocated s')
  here : L.Allocated s' a
  dir : IsDirectory (L.inode s'.blocks a) s'.blocks
  entries : (L.inode s'.blocks a).entries s'.blocks = es
  kept : ∀ i, i ≠ a → L.Allocated s i → L.Allocated s' i → ∃ c, Recounted L i c s s'
  new : ∀ i, L.Allocated s' i → ¬ L.Allocated s i → (L.inode s'.blocks i).type = kDirectory →
    IsDirectory (L.inode s'.blocks i) s'.blocks ∧ ∀ x ∈ (L.inode s'.blocks i).entries s'.blocks, isDot x.1 = true
  gone : ∀ i, L.Allocated s i → ¬ L.Allocated s' i → ∀ x ∈ L.entriesOf s i, isDot x.1 = true

namespace DirChange

theorem entriesOf_kept (change : DirChange L a es s s') (ne : i ≠ a) (before : L.Allocated s i)
    (after : L.Allocated s' i) : L.entriesOf s' i = L.entriesOf s i := by
  obtain ⟨c, same⟩ := change.kept i ne before after
  have type : (L.inode s'.blocks i).type = (L.inode s.blocks i).type := by rw [same.inode]
  rw [Layout.entriesOf, Layout.entriesOf, type, same.entries]
  simp only [before, after]

theorem entriesOf_self (change : DirChange L a es s s') : L.entriesOf s' a = es := by
  rw [Layout.entriesOf_dir change.here change.dir.type, change.entries]

theorem namesIn_kept (change : DirChange L a es s s') (ne : i ≠ a) (j : Nat) :
    namesIn (L.entriesOf s' i) j = namesIn (L.entriesOf s i) j := by
  by_cases before : L.Allocated s i
  · by_cases after : L.Allocated s' i
    · rw [change.entriesOf_kept ne before after]
    · rw [namesIn_eq_zero (change.gone i before after), Layout.entriesOf, if_neg fun both => after both.1]
      rfl
  · rw [show L.entriesOf s i = [] from if_neg fun both => before both.1]
    refine namesIn_eq_zero (fun x member => ?_) j
    obtain ⟨after, type, there⟩ := mem_entriesOf member
    exact (change.new i after before type).2 x there

theorem nameCount (change : DirChange L a es s s') (slotId : L.SlotId a) (j : Nat) :
    nameCount L s' j + namesIn (L.entriesOf s a) j = Sbfs.nameCount L s j + namesIn es j := by
  have total := sum_change (f := fun i => namesIn (L.entriesOf s i) j) (g := fun i => namesIn (L.entriesOf s' i) j)
    slotId.1 fun i ne => change.namesIn_kept ne j
  rw [change.entriesOf_self] at total
  exact total

/-- The law after a change, with any references from elsewhere. -/
theorem recounted {refs' : Nat → Nat} (change : DirChange L a es s s') (ok : Counted L refs s)
    (targets : ∀ x ∈ es, isDot x.1 = false → L.Allocated s' x.2)
    (gone : ∀ j, L.Allocated s j → ¬ L.Allocated s' j → Sbfs.nameCount L s' j = 0)
    (outside : ∀ j, ¬ L.Allocated s' j → refs' j = 0)
    (law : ∀ j, L.Allocated s' j → (L.links s'.blocks j).toNat = refs' j + Sbfs.nameCount L s' j) :
    Counted L refs' s' := by
  constructor
  case state => exact change.state
  case law => exact law
  case outside => exact outside
  case dirs =>
    intro i after type
    by_cases is : i = a
    · exact is ▸ change.dir
    · by_cases before : L.Allocated s i
      · obtain ⟨c, same⟩ := change.kept i is before after
        exact same.isDirectory (ok.dirs i before (by rw [same.inode] at type; exact type))
      · exact (change.new i after before type).1
  case targets =>
    intro i x member notDot
    obtain ⟨after, type, there⟩ := mem_entriesOf member
    by_cases is : i = a
    · rw [is, change.entriesOf_self] at member
      exact targets x member notDot
    · by_cases before : L.Allocated s i
      · have old := member
        rw [change.entriesOf_kept is before after] at old
        -- the inode that the entry names has not been freed
        by_contra freed
        have left := nameCount_pos (change.state.slots i after) member notDot
        rw [gone _ (ok.targets i x old notDot) freed] at left
        omega
      · rw [(change.new i after before type).2 x there] at notDot
        cases notDot

/-- The law after a change: the counts are right and no name of a freed inode is left. -/
theorem counted (change : DirChange L a es s s') (ok : Counted L refs s)
    (targets : ∀ x ∈ es, isDot x.1 = false → L.Allocated s' x.2)
    (gone : ∀ j, L.Allocated s j → ¬ L.Allocated s' j → refs j = 0 ∧ Sbfs.nameCount L s' j = 0)
    (law : ∀ j, L.Allocated s' j → (L.links s'.blocks j).toNat = refs j + Sbfs.nameCount L s' j) :
    Counted L refs s' := by
  refine change.recounted ok targets (fun j before after => (gone j before after).2) (fun j after => ?_) law
  by_cases before : L.Allocated s j
  · exact (gone j before after).1
  · exact ok.outside j before

end DirChange

/-! ## The methods -/

theorem toNat_sub_one {c : UInt16} (some : 0 < c.toNat) : (c - 1).toNat = c.toNat - 1 := by
  have le : (1 : UInt16) ≤ c := UInt16.le_iff_toNat_le.mpr (show 1 ≤ c.toNat from some)
  rw [UInt16.toNat_sub_of_le _ _ le]
  rfl

theorem toNat_add_one {c : UInt16} (room : c ≠ 65535) : (c + 1).toNat = c.toNat + 1 := by
  have bound : c.toNat < 65536 := c.toNat_lt
  have ne : c.toNat ≠ 65535 := fun same => room (UInt16.toNat_inj.mp same)
  rw [UInt16.toNat_add, show (1 : UInt16).toNat = 1 from rfl, Nat.mod_eq_of_lt (by omega)]

/-- A directory that a method is called on; the offsets of its entries are below 2^31. -/
structure CallOn (L : Layout) (s : Disk) (a : Nat) : Prop where
  here : L.Allocated s a
  type : (L.inode s.blocks a).type = kDirectory
  small : ((L.inode s.blocks a).entries s.blocks).length < 8388607

namespace Counted

theorem searchable (ok : Counted L refs s) (on : CallOn L s a) : Searchable L a s :=
  ⟨ok.dirs a on.here on.type, on.small⟩

theorem entriesOf (on : CallOn L s a) : L.entriesOf s a = (L.inode s.blocks a).entries s.blocks :=
  Layout.entriesOf_dir on.here on.type

/-- No inode has been allocated or freed. -/
theorem change_of_edited (on : CallOn L s a) {count : Nat → UInt16}
    (edited : Edited L (L.Allocated s) a es count s s') (marks : SameMarks L s s') :
    DirChange L a es s s' ∧ ∀ j, L.Allocated s' j ↔ L.Allocated s j := by
  have same : ∀ j, L.Allocated s' j ↔ L.Allocated s j := marks.used
  refine ⟨?_, same⟩
  constructor
  case state => exact edited.state.subset fun j there => (same j).mp there
  case here => exact (same a).mpr on.here
  case dir => exact edited.dir
  case entries => exact edited.entries
  case kept => exact fun i ne before _ => ⟨count i, edited.others i before ne⟩
  case new => exact fun i after before => absurd ((same i).mp after) before
  case gone => exact fun i before after => absurd ((same i).mpr before) after

/-- A change of the entries, of the link counts and of the references from elsewhere that balances. -/
theorem of_edited_refs {refs' : Nat → Nat} (ok : Counted L refs s) (on : CallOn L s a) {count : Nat → UInt16}
    (edited : Edited L (L.Allocated s) a es count s s') (marks : SameMarks L s s')
    (targets : ∀ x ∈ es, isDot x.1 = false → L.Allocated s x.2) (outside : ∀ j, ¬ L.Allocated s j → refs' j = 0)
    (balance : ∀ j, L.Allocated s j → (count j).toNat + namesIn ((L.inode s.blocks a).entries s.blocks) j + refs j =
      (L.links s.blocks j).toNat + namesIn es j + refs' j) : Counted L refs' s' := by
  obtain ⟨change, same⟩ := change_of_edited on edited marks
  refine change.recounted ok (fun x member notDot => (same _).mpr (targets x member notDot))
    (fun j before after => absurd ((same j).mpr before) after) (fun j after => outside j fun before =>
      after ((same j).mpr before)) fun j after => ?_
  have before := (same j).mp after
  have total := change.nameCount (ok.state.slots a on.here) j
  rw [entriesOf on] at total
  have law := ok.law j before
  have step := balance j before
  rw [edited.links before]
  omega

/-- A change of the entries and of the link counts by the same numbers. -/
theorem of_edited (ok : Counted L refs s) (on : CallOn L s a) {count : Nat → UInt16}
    (edited : Edited L (L.Allocated s) a es count s s') (marks : SameMarks L s s')
    (targets : ∀ x ∈ es, isDot x.1 = false → L.Allocated s x.2)
    (balance : ∀ j, L.Allocated s j → (count j).toNat + namesIn ((L.inode s.blocks a).entries s.blocks) j =
      (L.links s.blocks j).toNat + namesIn es j) : Counted L refs s' :=
  ok.of_edited_refs on edited marks targets ok.outside fun j before => by rw [balance j before]

/-- Nothing but times has changed. -/
theorem unchanged (ok : Counted L refs s) (on : CallOn L s a)
    (edited : Edited L (L.Allocated s) a ((L.inode s.blocks a).entries s.blocks) (L.links s.blocks) s s')
    (marks : SameMarks L s s') : Counted L refs s' :=
  ok.of_edited on edited marks (fun x member notDot => ok.targets a x (entriesOf on ▸ member) notDot)
    fun _ _ => rfl

theorem quiet (ok : Counted L refs s) (on : CallOn L s a) (quiet : Touches (fun _ => False) s s') :
    Counted L refs s' :=
  ok.unchanged on (ok.state.unchanged on.here (ok.dirs a on.here on.type) quiet)
    (.of_touches quiet fun _ => False.elim)

theorem bound_allocated (ok : Counted L refs s) (on : CallOn L s a) {name : Name} (notDot : isDot name = false) {x : Nat}
    (member : (name, x) ∈ (L.inode s.blocks a).entries s.blocks) : L.Allocated s x :=
  ok.targets a (name, x) (entriesOf on ▸ member) notDot

/-- An inode with a name has a positive link count. -/
theorem links_pos (ok : Counted L refs s) (on : CallOn L s a) {name : Name} (notDot : isDot name = false) {x : Nat}
    (member : (name, x) ∈ (L.inode s.blocks a).entries s.blocks) : 0 < (L.links s.blocks x).toNat := by
  rw [ok.law x (ok.bound_allocated on notDot member)]
  have pos := nameCount_pos (ok.state.slots a on.here) (entriesOf on ▸ member : (name, x) ∈ L.entriesOf s a) notDot
  simp only at pos
  omega

/-- `unlink` on any name but the dots, in at most 2072 blocks. -/
theorem run_unlink (ok : Counted L refs s) (on : CallOn L s a)
    (few : ((L.inode s.blocks a).entries s.blocks).length ≤ 33152) {name : Name} (proper : ProperName name)
    (notDot : isDot name = false) :
    ∃ r s', (Inode.unlink L.formatted (L.slot a) name).run s = (r, s') ∧ Counted L refs s' ∧
      ∀ j, L.Allocated s j → L.Allocated s' j := by
  obtain ⟨r, s', run, result⟩ := ok.state.run_unlink on.here (ok.searchable on) few
    (fun x member => ok.state.slots x (ok.bound_allocated on notDot member)) proper
  refine ⟨r, s', run, ?_⟩
  cases result with
  | absent quiet _ =>
    exact ⟨ok.quiet on quiet, fun j => ((SameMarks.of_touches quiet fun _ => False.elim).used j).mpr⟩
  | @done e x here marks edited =>
    have inside := (List.getElem?_eq_some_iff.mp here).1
    refine ⟨ok.of_edited on edited marks (fun y member dot => ?_) fun j _ => ?_, fun j => (marks.used j).mpr⟩
    · exact ok.targets a y (entriesOf on ▸ subset_removeAt inside member) dot
    · have names := namesIn_removeAt here notDot j
      rw [recount, Function.update_apply]
      by_cases is : j = x
      · subst is
        have pos := ok.links_pos on notDot (List.mem_of_getElem? here)
        rw [if_pos rfl] at names
        rw [if_pos rfl, toNat_sub_one pos]
        omega
      · rw [if_neg fun same => is same.symm] at names
        rw [if_neg is]
        omega

/-- `link` of another inode, not over an existing name. -/
theorem run_link (ok : Counted L refs s) (on : CallOn L s a) {name : Name} (proper : ProperName name)
    (notDot : isDot name = false) {t : Nat} (allocated : L.Allocated s t) (other : t ≠ a)
    (room : L.links s.blocks t ≠ 65535) {replace : Bool}
    (fresh : replace = true → ∀ x, (name, x) ∉ (L.inode s.blocks a).entries s.blocks)
    (enough : growth (L.inode s.blocks a) ((L.inode s.blocks a).size.toNat + 256) ≤
      (L.formatted.dataBitmap.freeIds s.blocks).length) :
    ∃ ret s', (Inode.link L.formatted (L.slot a) name (L.slot t) replace).run s = (ret, s') ∧ Counted L refs s' ∧
      ∀ j, L.Allocated s j → L.Allocated s' j := by
  obtain ⟨ret, s', run, result⟩ := ok.state.run_link on.here (ok.searchable on) proper (ok.state.slots t allocated)
    replace
  refine ⟨ret, s', run, ?_⟩
  cases result with
  | refused quiet _ =>
    exact ⟨ok.quiet on quiet, fun j => ((SameMarks.of_touches quiet fun _ => False.elim).used j).mpr⟩
  | full _ _ _ short => omega
  | done linked marks edited =>
    cases linked with
    | replaced allowed here => exact absurd (List.mem_of_getElem? here) (fresh allowed _)
    | appended absent =>
      refine ⟨ok.of_edited on edited marks (fun y member dot => ?_) fun j _ => ?_, fun j => (marks.used j).mpr⟩
      · cases List.mem_append.mp member with
        | inl old => exact ok.targets a y (entriesOf on ▸ old) dot
        | inr new => exact (List.mem_singleton.mp new) ▸ allocated
      · rw [namesIn_append _ notDot]
        by_cases self : j = a
        · -- the directory is saved with its old count
          rw [self, Function.update_self, if_neg other]
          omega
        · rw [Function.update_of_ne self, recount, Function.update_apply]
          by_cases is : j = t
          · rw [if_pos is, if_pos is.symm, toNat_add_one room, is]
            omega
          · rw [if_neg is, if_neg fun same => is same.symm]
            omega

/-- No entry names an inode that is not allocated. -/
theorem nameCount_free (ok : Counted L refs s) (free : ¬ L.Allocated s j) : nameCount L s j = 0 := by
  refine Finset.sum_eq_zero fun i _ => ?_
  rw [namesIn, List.countP_eq_zero]
  intro x member
  cases dot : isDot x.1 with
  | true => simp
  | false =>
    have ne : x.2 ≠ j := fun same => free (same ▸ ok.targets i x member dot)
    simp [ne]

/-- `create` with a free inode and enough blocks. -/
theorem run_create (ok : Counted L refs s) (on : CallOn L s a)
    {name : Name} (proper : ProperName name) (notDot : isDot name = false)
    (absent : ∀ x, (name, x) ∉ (L.inode s.blocks a).entries s.blocks) {d₀ : DiskInode} (empty : d₀.Empty)
    (one : d₀.linkCnt = 1) {n : Nat} (head : (L.formatted.inodeBitmap.freeIds s.blocks).head? = some n)
    (slotId : L.SlotId n)
    (enough : growth (L.inode s.blocks a) ((L.inode s.blocks a).size.toNat + 256) + newBlocks d₀ ≤
      (L.formatted.dataBitmap.freeIds s.blocks).length) :
    ∃ s', (Inode.create L.formatted (L.slot a) name d₀).run s = ((.kSuccess, some (L.slot n)), s') ∧
      Counted L refs s' ∧ (∀ j, L.Allocated s' j ↔ L.Allocated s j ∨ j = n) ∧
      Created L (L.Allocated s) a name n d₀ s s' := by
  obtain ⟨s', run, same, created⟩ := ok.state.run_create_room on.here (ok.searchable on) absent proper empty
    (fun _ => id) head slotId enough
  have free : ¬ L.Allocated s n := fun used => (Bitmap.used_iff.mp used).2 (List.mem_of_head? head)
  refine ⟨s', run, ?_, same, created⟩
  have edited := created.edited
  have change : DirChange L a ((L.inode s.blocks a).entries s.blocks ++ [(name, n)]) s s' := by
    constructor
    case state => exact created.state.subset fun j there => (same j).mp there
    case here => exact (same a).mpr (.inl on.here)
    case dir => exact edited.dir
    case entries => exact edited.entries
    case kept => exact fun i ne before _ => ⟨_, edited.others i before ne⟩
    case gone => exact fun i before after => absurd ((same i).mpr (.inl before)) after
    case new =>
      intro i after before type
      obtain rfl : i = n := ((same i).mp after).resolve_left before
      obtain ⟨dir, entries⟩ := created.new.dots (created.new.type.symm.trans type)
      refine ⟨dir, fun x member => ?_⟩
      rw [entries] at member
      rcases List.mem_pair.mp member with rfl | rfl
      · rfl
      · rfl
  refine change.counted ok (fun x member dot => ?_) (fun j before after => absurd ((same j).mpr (.inl before)) after)
    fun j after => ?_
  · cases List.mem_append.mp member with
    | inl old => exact (same _).mpr (.inl (ok.targets a x (entriesOf on ▸ old) dot))
    | inr new => exact (same _).mpr (.inr (by rw [List.mem_singleton.mp new]))
  · have total := change.nameCount (ok.state.slots a on.here) j
    rw [entriesOf on, namesIn_append _ notDot] at total
    by_cases before : L.Allocated s j
    · have ne : ¬ n = j := fun is => free (is ▸ before)
      rw [if_neg ne] at total
      rw [edited.links before, ok.law j before]
      omega
    · obtain rfl : j = n := ((same j).mp after).resolve_left before
      have count : L.links s'.blocks j = 1 := created.new.linkCnt.trans one
      rw [if_pos rfl, ok.nameCount_free free] at total
      rw [count, ok.outside j free]
      change 1 = _
      omega

/-- `remove` of the last name of another inode that holds no entries, in at most 2072 blocks. -/
theorem run_remove (ok : Counted L refs s) (on : CallOn L s a)
    (few : ((L.inode s.blocks a).entries s.blocks).length ≤ 33152) {name : Name} (proper : ProperName name)
    (notDot : isDot name = false)
    (last : ∀ x, (name, x) ∈ (L.inode s.blocks a).entries s.blocks → x ≠ a ∧ L.links s.blocks x = 1 ∧
      ∀ y ∈ L.entriesOf s x, isDot y.1 = true) :
    ∃ ret s', (Inode.remove L.formatted (L.slot a) name).run s = (ret, s') ∧ Counted L refs s' ∧
      (ret = .kSuccess → ∃ e x, ((L.inode s.blocks a).entries s.blocks)[e]? = some (name, x) ∧
        (L.inode s'.blocks a).entries s'.blocks = removeAt ((L.inode s.blocks a).entries s.blocks) e ∧
        refs x = 0 ∧ nameCount L s' x = 0 ∧ (∀ j, L.Allocated s' j ↔ L.Allocated s j ∧ j ≠ x) ∧
        ∀ b, (L.inode s.blocks x).OwnsBlock s.blocks b → ¬ L.formatted.dataBitmap.Used s'.blocks b) ∧
      (ret = .kFail → ∀ j, L.Allocated s' j ↔ L.Allocated s j) := by
  obtain ⟨ret, s', run, result⟩ := ok.state.run_remove on.here (ok.searchable on) few proper (fun _ => id)
    fun x member => ⟨ok.bound_allocated on notDot member, (last x member).1⟩
  refine ⟨ret, s', run, ?_⟩
  cases result with
  | absent quiet _ =>
    exact ⟨ok.quiet on quiet, fun h => (by cases h), fun _ => (SameMarks.of_touches quiet fun _ => False.elim).used⟩
  | kept here more _ _ => exact absurd (last _ here).2.1 more
  | @freed e x here one edited bits blocks =>
    have member := List.mem_of_getElem? here
    have inside := (List.getElem?_eq_some_iff.mp here).1
    obtain ⟨ne, -, dots⟩ := last x member
    have there := ok.bound_allocated on notDot member
    have change : DirChange L a (removeAt ((L.inode s.blocks a).entries s.blocks) e) s s' := by
      constructor
      case state => exact edited.state.subset fun j after => (bits j).mp after
      case here => exact (bits a).mpr ⟨on.here, ne.symm⟩
      case dir => exact edited.dir
      case entries => exact edited.entries
      case kept => exact fun i notA before after => ⟨_, edited.others i ((bits i).mp after) notA⟩
      case new => exact fun i after before => absurd ((bits i).mp after).1 before
      case gone =>
        intro i before after y listed
        have is : i = x := by
          by_contra other
          exact after ((bits i).mpr ⟨before, other⟩)
        exact dots y (is ▸ listed)
    have total := change.nameCount (ok.state.slots a on.here)
    simp only [entriesOf on] at total
    -- the one reference to the inode is this entry
    have gone : refs x = 0 ∧ nameCount L s' x = 0 := by
      have sum := total x
      have names := namesIn_removeAt here notDot x
      have law := ok.law x there
      have count : (L.links s.blocks x).toNat = 1 := by
        rw [one]
        rfl
      rw [if_pos rfl] at names
      omega
    refine ⟨change.counted ok (fun y listed dot => ?_) (fun j before after => ?_) fun j after => ?_, fun _ => ?_,
      fun h => (by cases h)⟩
    · by_contra freed
      have before := ok.targets a y (entriesOf on ▸ subset_removeAt inside listed) dot
      have is : y.2 = x := by
        by_contra other
        exact freed ((bits _).mpr ⟨before, other⟩)
      have left := nameCount_pos (change.state.slots a change.here) (change.entriesOf_self ▸ listed) dot
      rw [is, gone.2] at left
      omega
    · have is : j = x := by
        by_contra other
        exact after ((bits j).mpr ⟨before, other⟩)
      exact is ▸ gone
    · obtain ⟨before, other⟩ := (bits j).mp after
      have sum := total j
      have names := namesIn_removeAt here notDot j
      rw [if_neg fun same => other same.symm] at names
      rw [edited.links ⟨before, other⟩, ok.law j before]
      omega
    · exact ⟨e, x, here, edited.entries, gone.1, gone.2, bits, blocks⟩

end Counted

end

/-! ### The disk with one directory -/

/-- The super block refers to the directory. -/
def loneRefs (j : Nat) : Nat := if j = 2 then 1 else 0

theorem loneDisk_entriesOf (i : Nat) : Layout.default.entriesOf loneDisk i = [] := by
  rw [Layout.entriesOf]
  split
  next both => rw [(loneDisk_used i).mp both.1, loneDisk_entries]
  next => rfl

theorem loneDisk_counted : Counted .default loneRefs loneDisk := by
  have only : ∀ j, Layout.default.Allocated loneDisk j → j = 2 := fun j => (loneDisk_used j).mp
  constructor
  case state => exact loneDisk_state.state.subset only
  case dirs =>
    intro i there _
    exact only i there ▸ loneDisk_state.dir
  case targets =>
    intro i x member
    rw [loneDisk_entriesOf] at member
    exact absurd member List.not_mem_nil
  case outside =>
    intro j free
    exact if_neg fun is => free ((loneDisk_used j).mpr is)
  case law =>
    intro j there
    have none : nameCount .default loneDisk j = 0 := Finset.sum_eq_zero fun i _ => by
      rw [loneDisk_entriesOf]
      rfl
    rw [none, only j there, Layout.links, loneDisk_inode]
    rfl

/-! ## Runs -/

/-- The calls on any directory; directories and the target of `link` are given by inode ids. -/
inductive NameCall where
  | create (dir : Nat) (name : Name) (diskInode : DiskInode)
  | link (dir : Nat) (name : Name) (inode : Nat) (replace : Bool)
  | unlink (dir : Nat) (name : Name)
  | remove (dir : Nat) (name : Name)

namespace NameCall

def dir : NameCall → Nat
  | create dir _ _ => dir
  | link dir _ _ _ => dir
  | unlink dir _ => dir
  | remove dir _ => dir

def name : NameCall → Name
  | create _ name _ => name
  | link _ name _ _ => name
  | unlink _ name => name
  | remove _ name => name

def prog (L : Layout) : NameCall → Prog (Ret × Option Position)
  | create dir name diskInode => Inode.create L.formatted (L.slot dir) name diskInode
  | link dir name inode replace => do
    return (← Inode.link L.formatted (L.slot dir) name (L.slot inode) replace, none)
  | unlink dir name => Inode.unlink L.formatted (L.slot dir) name
  | remove dir name => do return (← Inode.remove L.formatted (L.slot dir) name, none)

/-- The calls after which the counts are right: with a name other than the dots, and with enough
space.  `create` gets an absent name and a new `DiskInode`; `link` is not over an existing name, nor
of the directory itself, nor of an inode with 65535 names; `unlink` and `remove` are on a directory
of at most 2072 blocks, which shrinks; `remove` is of the only name of an inode other than the
directory itself that holds no entries. -/
def Keeps (L : Layout) (s : Disk) (c : NameCall) : Prop :=
  CallOn L s c.dir ∧ ProperName c.name ∧ isDot c.name = false ∧
    match c with
    | create dir name diskInode => bindings L dir s name = none ∧ diskInode.Empty ∧ diskInode.linkCnt = 1 ∧
        (∃ n, (L.formatted.inodeBitmap.freeIds s.blocks).head? = some n ∧ L.SlotId n) ∧
        growth (L.inode s.blocks dir) ((L.inode s.blocks dir).size.toNat + 256) + newBlocks diskInode ≤
          (L.formatted.dataBitmap.freeIds s.blocks).length
    | link dir name inode replace => L.Allocated s inode ∧ inode ≠ dir ∧ L.links s.blocks inode ≠ 65535 ∧
        (replace = true → bindings L dir s name = none) ∧
        growth (L.inode s.blocks dir) ((L.inode s.blocks dir).size.toNat + 256) ≤
          (L.formatted.dataBitmap.freeIds s.blocks).length
    | unlink dir _ => ((L.inode s.blocks dir).entries s.blocks).length ≤ 33152
    | remove dir name => ((L.inode s.blocks dir).entries s.blocks).length ≤ 33152 ∧
        ∀ x, bindings L dir s name = some x → x ≠ dir ∧ L.links s.blocks x = 1 ∧
        ∀ y ∈ L.entriesOf s x, isDot y.1 = true

/-- What is freed: by a successful `remove` the inode whose last name goes away, with its blocks, and
nothing else; by the other calls nothing. -/
def Frees (L : Layout) (refs : Nat → Nat) (s s' : Disk) (r : Ret) : NameCall → Prop
  | remove dir name =>
    (r = .kSuccess → bindings L dir s' name = none ∧ ∃ x, bindings L dir s name = some x ∧
      refs x = 0 ∧ nameCount L s' x = 0 ∧ (∀ j, L.Allocated s' j ↔ L.Allocated s j ∧ j ≠ x) ∧
      ∀ b, (L.inode s.blocks x).OwnsBlock s.blocks b → ¬ L.formatted.dataBitmap.Used s'.blocks b) ∧
    (r = .kFail → ∀ j, L.Allocated s' j ↔ L.Allocated s j)
  | _ => ∀ j, L.Allocated s j → L.Allocated s' j

end NameCall

/-- The states that calls reach whose counts are right. -/
inductive NameRun (L : Layout) (s₀ : Disk) : Disk → Prop where
  | start : NameRun L s₀ s₀
  | step {s s' : Disk} {c : NameCall} {r : Ret × Option Position} (before : NameRun L s₀ s) (keeps : c.Keeps L s)
      (run : (c.prog L).run s = (r, s')) : NameRun L s₀ s'

section

variable {L : Layout} {refs : Nat → Nat} {s₀ s s' : Disk} {c : NameCall}

theorem Counted.step (ok : Counted L refs s) (keeps : c.Keeps L s) :
    ∃ r s', (c.prog L).run s = (r, s') ∧ Counted L refs s' ∧ c.Frees L refs s s' r.1 := by
  obtain ⟨on, proper, notDot, needs⟩ := keeps
  cases c with
  | create dir name diskInode =>
    obtain ⟨absent, empty, one, ⟨n, head, slotId⟩, enough⟩ := needs
    obtain ⟨s', run, ok', same, -⟩ := ok.run_create on proper notDot (find_eq_none.mp absent) empty one head slotId
      enough
    exact ⟨_, s', run, ok', fun j there => (same j).mpr (.inl there)⟩
  | link dir name inode replace =>
    obtain ⟨allocated, other, room, fresh, enough⟩ := needs
    obtain ⟨ret, s', run, ok', same⟩ := ok.run_link on proper notDot allocated other room
      (fun replaces => find_eq_none.mp (fresh replaces)) enough
    simp only [NameCall.dir, NameCall.name] at run
    exact ⟨(ret, none), s', by simp only [NameCall.prog, DevProg.run_bind, run, DevProg.run_pure], ok', same⟩
  | unlink dir name =>
    obtain ⟨r, s', run, ok', same⟩ := ok.run_unlink on needs proper notDot
    exact ⟨r, s', run, ok', same⟩
  | remove dir name =>
    have distinct := (ok.dirs dir on.here on.type).distinct
    obtain ⟨ret, s', run, ok', freed, failed⟩ := ok.run_remove on needs.1 proper notDot fun x member =>
      needs.2 x ((find_eq_some distinct).mpr member)
    simp only [NameCall.dir, NameCall.name] at run freed
    refine ⟨(ret, none), s', by simp only [NameCall.prog, DevProg.run_bind, run, DevProg.run_pure], ok',
      fun success => ?_, failed⟩
    obtain ⟨e, x, here, entries, gone⟩ := freed success
    refine ⟨?_, x, (find_eq_some distinct).mpr (List.mem_of_getElem? here), gone⟩
    rw [bindings, entries, find_removeAt distinct here, Function.update_self]

theorem NameRun.counted (start : Counted L refs s₀) (run : NameRun L s₀ s) : Counted L refs s := by
  induction run with
  | start => exact start
  | step _ keeps run ih =>
    obtain ⟨r', s'', run', ok', -⟩ := ih.step keeps
    cases run.symm.trans run'
    exact ok'

end

/-- A file `f` is created, and `link` gives it the second name `g`. -/
theorem loneDisk_twoNames : ∃ s₁ s₂,
    (Inode.create Layout.default.formatted (Layout.default.slot 2) [102] emptyFile).run loneDisk =
      ((.kSuccess, some (Layout.default.slot 3)), s₁) ∧
    (Inode.link Layout.default.formatted (Layout.default.slot 2) [103] (Layout.default.slot 3) false).run s₁ =
      (.kSuccess, s₂) ∧
    NameRun .default loneDisk s₂ ∧ CallOn .default s₂ 2 ∧
    (Layout.default.inode s₂.blocks 2).entries s₂.blocks = [([102], 3), ([103], 3)] ∧
    Layout.default.Allocated s₂ 3 ∧ Layout.default.inode s₂.blocks 3 = { emptyFile with linkCnt := 2 } := by
  have f : ProperName [102] := .of_all (by decide) (by decide) rfl
  have g : ProperName [103] := .of_all (by decide) (by decide) rfl
  -- the file is created
  have on : CallOn .default loneDisk 2 :=
    ⟨(loneDisk_used 2).mpr rfl, loneDisk_state.dir.type, by rw [loneDisk_entries]; decide⟩
  have grown : growth loneDirectory 256 = 1 := growth_direct (by decide)
  have enough : growth (Layout.default.inode loneDisk.blocks 2)
      ((Layout.default.inode loneDisk.blocks 2).size.toNat + 256) + newBlocks emptyFile ≤
      (Layout.default.formatted.dataBitmap.freeIds loneDisk.blocks).length := by
    rw [loneDisk_inode]
    exact loneDisk_free.trans' (Nat.le_of_eq grown)
  obtain ⟨s₁, create, ok₁, same₁, created⟩ := loneDisk_counted.run_create on f (by decide)
    (by rw [loneDisk_entries]; exact fun x => List.not_mem_nil) emptyFile_empty rfl loneDisk_head
    ⟨by decide, by decide⟩ enough
  have run₁ : NameRun .default loneDisk s₁ :=
    .step (c := .create 2 [102] emptyFile) .start ⟨on, f, by decide, by rw [bindings, loneDisk_entries]; rfl,
      emptyFile_empty, rfl, ⟨3, loneDisk_head, by decide, by decide⟩, enough⟩ create
  have entries₁ := created.edited.entries
  rw [loneDisk_entries, List.nil_append] at entries₁
  have dir₁ := created.edited.dir
  have size₁ := dir₁.aligned
  rw [entries₁] at size₁
  have on₁ : CallOn .default s₁ 2 := ⟨(same₁ 2).mpr (.inl on.here), dir₁.type, by
    rw [entries₁]
    decide⟩
  have there₁ : Layout.default.Allocated s₁ 3 := (same₁ 3).mpr (.inr rfl)
  have file₁ : Layout.default.inode s₁.blocks 3 = emptyFile := created.new.file (by decide)
  -- the second name
  have unbound : ∀ x, ([103], x) ∉ (Layout.default.inode s₁.blocks 2).entries s₁.blocks := by
    rw [entries₁]
    simp
  have room : growth (Layout.default.inode s₁.blocks 2) ((Layout.default.inode s₁.blocks 2).size.toNat + 256) ≤
      (Layout.default.formatted.dataBitmap.freeIds s₁.blocks).length := by
    rw [dir₁.next_fits (by rw [entries₁]; decide)]
    exact Nat.zero_le _
  obtain ⟨s₂, link, marks, edited⟩ := ok₁.state.run_link_fresh on₁.here (ok₁.searchable on₁) g
    (ok₁.state.slots 3 there₁) unbound (by rw [size₁]; decide) room false
  have run₂ : NameRun .default loneDisk s₂ :=
    .step (c := .link 2 [103] 3 false) (r := (.kSuccess, none)) run₁ ⟨on₁, g, by decide, there₁, by decide,
      by rw [Layout.links, file₁]; decide, fun replaces => (by cases replaces), room⟩
      (by simp only [NameCall.prog, DevProg.run_bind, link, DevProg.run_pure])
  have entries₂ := edited.entries
  rw [entries₁] at entries₂
  refine ⟨s₁, s₂, create, link, run₂, ⟨(marks.used 2).mpr on₁.here, edited.dir.type, by rw [entries₂]; decide⟩,
    entries₂, (marks.used 3).mpr there₁, ?_⟩
  rw [(edited.others 3 there₁ (by decide)).inode, Function.update_of_ne (by decide), recount, Function.update_self,
    Layout.links, file₁]
  rfl

end Sbfs
