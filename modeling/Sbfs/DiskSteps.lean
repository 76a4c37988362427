import Sbfs.TreeOnDisk

/-! # The methods of `Inode` on the tree of the disk

On a disk whose link counts are right each method does to the tree what `FileTree.service` says, when the
request fits and there is enough space (`OnDisk.step`): the service of the tree simulates the one of
the disk. -/

namespace Sbfs

open PackedMap

theorem isDot_of_isPart {name : Name} (part : IsPart name) : isDot name = false := by
  simp [isDot, part.notDot, part.notDots]

theorem IsPart.proper {name : Name} (part : IsPart name) : ProperName name :=
  ⟨part.nonempty, part.short, fun _ member zero => part.noZero (zero ▸ member)⟩

section

variable {L : Layout} {refs : Nat → Nat} {s s' : Disk} {a n x : Nat} {name : Name}

theorem nameAt_dir (on : CallOn L s a) : L.nameAt s a = find ((L.inode s.blocks a).entries s.blocks) := by
  rw [Layout.nameAt, Counted.entriesOf on]

theorem mem_keys {es : List (Name × Nat)} : name ∈ es.map Prod.fst ↔ find es name ≠ none := by
  rw [ne_eq, find_eq_none, not_forall_not, List.mem_map]
  constructor
  · rintro ⟨⟨l, x⟩, member, rfl⟩
    exact ⟨x, member⟩
  · rintro ⟨x, member⟩
    exact ⟨(name, x), member, rfl⟩

/-- The size of a directory of the tree is the number of its entries. -/
theorem size_slot (slotId : L.SlotId a) (on : CallOn L s a) (distinct : Distinct ((L.inode s.blocks a).entries s.blocks)) :
    (L.fileTree s).size (L.slot a) = ((L.inode s.blocks a).entries s.blocks).length := by
  have entry : ∀ name, L.named (L.nameAt s) (L.slot a) name ≠ none ↔
      name ∈ ((L.inode s.blocks a).entries s.blocks).map Prod.fst := by
    intro name
    rw [Layout.named, Layout.atPlace_slot slotId, nameAt_dir on, mem_keys, ne_eq, Option.map_eq_none_iff]
  have part : ∀ p : Name → Bool, {name | p name = true ∧ L.named (L.nameAt s) (L.slot a) name ≠ none}.encard =
      ((((L.inode s.blocks a).entries s.blocks).map Prod.fst).filter p).length := by
    intro p
    rw [← List.toFinset_card_of_nodup (distinct.filter p), ← Set.encard_coe_eq_coe_finsetCard]
    congr 1
    ext name
    rw [Set.mem_ofPred_eq, entry, Finset.mem_coe, List.mem_toFinset, List.mem_filter, and_comm]
  have found : {name | (L.fileTree s).find (L.slot a) name ≠ none} =
      {name | (!isDot name) = true ∧ L.named (L.nameAt s) (L.slot a) name ≠ none} := by
    ext name
    change (if isDot name then none else L.named (L.nameAt s) (L.slot a) name) ≠ none ↔
      (!isDot name) = true ∧ L.named (L.nameAt s) (L.slot a) name ≠ none
    cases isDot name with
    | false => simp
    | true => simp
  have dots : {name | (L.fileTree s).dots (L.slot a) name ≠ none} =
      {name | isDot name = true ∧ L.named (L.nameAt s) (L.slot a) name ≠ none} := by
    ext name
    change (if isDot name then L.named (L.nameAt s) (L.slot a) name else none) ≠ none ↔
      isDot name = true ∧ L.named (L.nameAt s) (L.slot a) name ≠ none
    cases isDot name with
    | false => simp
    | true => simp
  have split := List.length_eq_length_filter_add (l := ((L.inode s.blocks a).entries s.blocks).map Prod.fst) isDot
  rw [List.length_map] at split
  rw [FileTree.size, found, dots, part, part, split, Nat.add_comm, Nat.cast_add]

/-- The entries of a new inode. -/
def newEntries (type : DiskInodeType) (self parent : Nat) : List (Name × Nat) :=
  if type = kDirectory then [([46], self), ([46, 46], parent)] else []

theorem find_newEntries (type : DiskInodeType) (self parent : Nat) (l : Name) :
    find (newEntries type self parent) l = if type = kDirectory then
      if l = [46] then some self else if l = [46, 46] then some parent else none else none := by
  rw [newEntries]
  split
  next =>
    have distinct : Distinct [(([46] : Name), self), ([46, 46], parent)] := by simp [Distinct]
    by_cases dot : l = [46]
    · rw [if_pos dot, dot]
      exact (find_eq_some distinct).mpr List.mem_cons_self
    · rw [if_neg dot]
      by_cases dots : l = [46, 46]
      · rw [if_pos dots, dots]
        exact (find_eq_some distinct).mpr (List.mem_cons_of_mem _ List.mem_cons_self)
      · rw [if_neg dots]
        refine find_eq_none.mpr fun x member => ?_
        rcases List.mem_pair.mp member with same | same
        · exact dot (Prod.mk.inj same).1
        · exact dots (Prod.mk.inj same).1
  next => rfl

namespace Counted

theorem distinct (ok : Counted L refs s) (on : CallOn L s a) : Distinct ((L.inode s.blocks a).entries s.blocks) :=
  (ok.dirs a on.here on.type).distinct

/-- The tree gives each inode one name, so no directory has more entries than there are inodes. -/
theorem few (ok : Counted L refs s) (sound : (L.fileTree s).Sound) (bitmap : L.inodeBitmapBlocks = kInodeBitmapBlocks)
    (here : L.Allocated s a) (type : (L.inode s.blocks a).type = kDirectory) :
    ((L.inode s.blocks a).entries s.blocks).length ≤ 33152 := by
  have slotA := ok.state.slots a here
  have entries := Layout.entriesOf_dir here type
  have distinct := (ok.dirs a here type).distinct
  generalize (L.inode s.blocks a).entries s.blocks = es at entries distinct ⊢
  have nodup : es.Nodup := List.Nodup.of_map _ distinct
  -- the inodes that are named
  have named : (es.filter fun x => !isDot x.1).length ≤ 32768 := by
    have edge : ∀ x ∈ es.filter (fun x => !isDot x.1), (L.fileTree s).find (L.slot a) x.1 = some (L.slot x.2) := by
      intro x member
      obtain ⟨member, other⟩ := List.mem_filter.mp member
      rw [Layout.find_slot slotA (Bool.not_eq_true' _ ▸ other), Layout.nameAt, entries,
        (find_eq_some distinct).mpr member, Option.map_some]
    have once : ((es.filter fun x => !isDot x.1).map Prod.snd).Nodup := by
      refine List.Nodup.map_on (fun x memberX y memberY same => Prod.ext ?_ same) (nodup.filter _)
      have first := edge x memberX
      rw [same] at first
      exact (sound.tree.once _ _ _ _ _ first (edge y memberY)).2
    have inside : (es.filter fun x => !isDot x.1).map Prod.snd ⊆ List.range 32768 := by
      intro i member
      obtain ⟨x, listed, rfl⟩ := List.mem_map.mp member
      obtain ⟨listed, other⟩ := List.mem_filter.mp listed
      have slotId := ok.state.slots x.2 (ok.targets a x (entries ▸ listed) (Bool.not_eq_true' _ ▸ other))
      have small := slotId.1
      rw [bitmap, kInodeBitmapBlocks] at small
      exact List.mem_range.mpr (by omega)
    have count := (List.subperm_of_subset once inside).length_le
    rwa [List.length_map, List.length_range] at count
  have dots : (es.filter fun x => isDot x.1).length ≤ 2 := by
    have once : ((es.filter fun x => isDot x.1).map Prod.fst).Nodup :=
      List.Nodup.sublist (List.filter_sublist.map _) distinct
    have inside : (es.filter fun x => isDot x.1).map Prod.fst ⊆ [[46], [46, 46]] := by
      intro l member
      obtain ⟨x, listed, rfl⟩ := List.mem_map.mp member
      have dot := (List.mem_filter.mp listed).2
      simp only [isDot, Bool.or_eq_true, beq_iff_eq] at dot
      exact List.mem_pair.mpr dot
    have count := (List.subperm_of_subset once inside).length_le
    rwa [List.length_map] at count
  have split := List.length_eq_length_filter_add (l := es) fun x => isDot x.1
  omega

theorem callOn (ok : Counted L refs s) (sound : (L.fileTree s).Sound) (bitmap : L.inodeBitmapBlocks = kInodeBitmapBlocks)
    (here : L.Allocated s a) (type : (L.inode s.blocks a).type = kDirectory) : CallOn L s a :=
  ⟨here, type, (ok.few sound bitmap here type).trans_lt (by decide)⟩

/-- `find`. -/
theorem tree_find (ok : Counted L refs s) (on : CallOn L s a) (part : IsPart name) :
    ∃ s', (Inode.find L.formatted (L.slot a) name).run s = ((L.fileTree s).find (L.slot a) name, s') ∧
      TreeKept L s s' := by
  obtain ⟨s', run, quiet⟩ := ok.state.run_find on.here (ok.searchable on) part.proper
  refine ⟨s', ?_, .of_quiet ok quiet⟩
  rw [run, Layout.find_slot (ok.state.slots a on.here) (isDot_of_isPart part), nameAt_dir on]

/-- `unlink`. -/
theorem tree_unlink (ok : Counted L refs s) (on : CallOn L s a)
    (few : ((L.inode s.blocks a).entries s.blocks).length ≤ 33152) (part : IsPart name) :
    ∃ r s', (Inode.unlink L.formatted (L.slot a) name).run s = (r, s') ∧ Counted L refs s' ∧
      FileTree.service (.unlink (L.slot a) name) (L.fileTree s) r (L.fileTree s') := by
  have notDot := isDot_of_isPart part
  have slotA := ok.state.slots a on.here
  have slots : ∀ x, (name, x) ∈ (L.inode s.blocks a).entries s.blocks → L.SlotId x := fun x member =>
    ok.state.slots x (ok.bound_allocated on notDot member)
  obtain ⟨r, s', run, ok', -⟩ := ok.run_unlink on few part.proper notDot
  obtain ⟨r', s'', run', result⟩ := ok.state.run_unlink on.here (ok.searchable on) few slots
    part.proper
  cases run.symm.trans run'
  refine ⟨r, s', run, ok', ?_⟩
  have found := Layout.find_slot (s := s) slotA notDot
  rw [nameAt_dir on] at found
  cases result with
  | absent quiet unbound =>
    rw [find_eq_none.mpr unbound, Option.map_none] at found
    simp only [FileTree.service, found]
    exact ⟨trivial, (TreeKept.of_quiet ok quiet).fileTree⟩
  | @done e x here marks edited =>
    have member := List.mem_of_getElem? here
    rw [(find_eq_some (ok.distinct on)).mpr member, Option.map_some] at found
    simp only [FileTree.service, found]
    refine ⟨trivial, ?_⟩
    obtain ⟨kinds, counts, names, contents⟩ := edited.places on marks
    have pos := ok.links_pos on notDot member
    have there := ok.bound_allocated on notDot member
    refine Layout.fileTree_setEntry (v := none) (g := (· - 1)) slotA (slots x member) notDot kinds
      (funext fun j => ?_) ?_ contents
    · rw [counts, recount, Function.update_apply, Function.update_apply]
      by_cases is : j = x
      · rw [if_pos is, if_pos is, is, if_pos there, toNat_sub_one pos, Layout.linksAt, if_pos there]
      · rw [if_neg is, if_neg is]
        rfl
    · rw [names, find_removeAt (ok.distinct on) here, nameAt_dir on]

/-- `link` of an inode without a name. -/
theorem tree_link (ok : Counted L refs s) (on : CallOn L s a) (part : IsPart name) (there : L.Allocated s x) (ne : x ≠ a)
    (zero : (L.links s.blocks x).toNat = 0) (replace : Bool)
    (enough : growth (L.inode s.blocks a) ((L.inode s.blocks a).size.toNat + 256) ≤
      (L.formatted.dataBitmap.freeIds s.blocks).length) :
    ∃ ret s' refs', (Inode.link L.formatted (L.slot a) name (L.slot x) replace).run s = (ret, s') ∧
      Counted L refs' s' ∧
      FileTree.service (.link (L.slot a) name (L.slot x) replace) (L.fileTree s) ret (L.fileTree s') := by
  have notDot := isDot_of_isPart part
  have slotA := ok.state.slots a on.here
  have slotX := ok.state.slots x there
  have distinct := ok.distinct on
  obtain ⟨ret, s', run, result⟩ := ok.state.run_link on.here (ok.searchable on) part.proper slotX replace
  have found := Layout.find_slot (s := s) slotA notDot
  rw [nameAt_dir on] at found
  cases result with
  | full _ _ _ short => omega
  | refused quiet cause =>
    have kept := TreeKept.of_quiet ok quiet
    refine ⟨_, s', refs, run, kept.counted ok, .inr ⟨rfl, ?_, kept.fileTree⟩⟩
    refine cause.imp (fun bound => ⟨bound.1, ?_⟩) fun large => ?_
    · obtain ⟨y, member⟩ := bound.2
      rw [found, (find_eq_some distinct).mpr member]
      exact Option.some_ne_none _
    · rw [FileTree.Large, size_slot slotA on distinct]
      simp only [(ok.dirs a on.here on.type).aligned, dataBlocks] at large
      exact_mod_cast show 352 < _ by omega
  | @done es linked marks edited =>
    obtain ⟨kinds, counts, names, contents⟩ := edited.places on marks
    have one : (L.links s.blocks x + 1).toNat = 1 := by
      rw [toNat_add_one, zero]
      rintro full
      rw [full] at zero
      exact absurd zero (by decide)
    -- the count of the directory is saved as it was
    have count : ∀ j, Function.update (recount (L.links s.blocks) x (· + 1)) a (L.links s.blocks a) j =
        if j = x then L.links s.blocks x + 1 else L.links s.blocks j := by
      intro j
      rw [Function.update_apply, recount, Function.update_apply]
      by_cases self : j = a
      · rw [if_pos self, if_neg (self ▸ ne.symm), self]
      · rw [if_neg self]
    have tree : L.fileTree s' = ((L.fileTree s).setEntry (L.slot a) name (some (L.slot x))).recount (L.slot x) (· + 1) := by
      refine Layout.fileTree_setEntry (v := some x) (g := (· + 1)) slotA slotX notDot kinds (funext fun j => ?_) ?_
        contents
      · rw [counts, count, Function.update_apply, Layout.linksAt, Layout.linksAt, if_pos there]
        by_cases is : j = x
        · rw [if_pos is, if_pos is, is, if_pos there, one, zero]
        · rw [if_neg is, if_neg is]
      · rw [names, linked.find distinct, nameAt_dir on]
    have balance : ∀ j, (if j = x then L.links s.blocks x + 1 else L.links s.blocks j).toNat =
        (L.links s.blocks j).toNat + if x = j then 1 else 0 := by
      intro j
      by_cases is : j = x
      · rw [if_pos is, if_pos is.symm, one, is, zero]
      · rw [if_neg is, if_neg fun same => is same.symm, Nat.add_zero]
    cases linked with
    | @replaced allowed e z here =>
      have bound := ok.bound_allocated on notDot (List.mem_of_getElem? here)
      refine ⟨_, s', fun j => refs j + if z = j then 1 else 0, run, ?_, .inl ⟨rfl, .inr allowed, tree⟩⟩
      refine ok.of_edited_refs on edited marks (fun y member dot => ?_) (fun j free => ?_) fun j _ => ?_
      · cases List.mem_or_eq_of_mem_set member with
        | inl old => exact ok.targets a y (entriesOf on ▸ old) dot
        | inr new => exact new ▸ there
      · rw [ok.outside j free, if_neg fun is : z = j => free (is ▸ bound)]
      · have names := namesIn_set here notDot x j
        rw [count, balance]
        omega
    | appended absent =>
      refine ⟨_, s', refs, run, ?_, .inl ⟨rfl, .inl ?_, tree⟩⟩
      · refine ok.of_edited on edited marks (fun y member dot => ?_) fun j _ => ?_
        · cases List.mem_append.mp member with
          | inl old => exact ok.targets a y (entriesOf on ▸ old) dot
          | inr new => exact (List.mem_singleton.mp new) ▸ there
        · rw [count, balance, namesIn_append _ notDot]
          omega
      · rw [found, find_eq_none.mpr absent, Option.map_none]

theorem free_places {j : Nat} (free : ¬ L.Allocated s j) :
    L.kindAt s j = none ∧ L.linksAt s j = 0 ∧ L.nameAt s j = fun _ => none := by
  refine ⟨if_neg free, if_neg free, ?_⟩
  rw [Layout.nameAt, Layout.entriesOf, if_neg fun both => free both.1]
  rfl

/-- What the tree has when directory `a` has changed and inode `x` has come or gone. -/
theorem places_beside {es : List (Name × Nat)} {live : Nat → Prop} (on : CallOn L s a)
    (edited : Edited L live a es (L.links s.blocks) s s') (ne : a ≠ x)
    (same : ∀ j, j ≠ x → (L.Allocated s' j ↔ L.Allocated s j)) (there : ∀ j, L.Allocated s j → j ≠ x → live j) :
    L.kindAt s' = Function.update (L.kindAt s) x (L.kindAt s' x) ∧
      L.linksAt s' = Function.update (L.linksAt s) x (L.linksAt s' x) ∧
      L.nameAt s' = Function.update (Function.update (L.nameAt s) a (find es)) x (L.nameAt s' x) ∧
      L.contentAt s' = Function.update (L.contentAt s) x (L.contentAt s' x) := by
  have here := (same a ne).mpr on.here
  -- an inode that is not allocated is neither before nor after
  have absent : ∀ j, j ≠ x → ¬ L.Allocated s j → ¬ L.Allocated s' j := fun j other before after =>
    before ((same j other).mp after)
  refine ⟨funext fun j => ?_, funext fun j => ?_, funext fun j => ?_, funext fun j => ?_⟩
  · rw [Function.update_apply]
    split
    next is => rw [is]
    next other =>
      by_cases before : L.Allocated s j
      · rw [Layout.kindAt, Layout.kindAt, if_pos before, if_pos ((same j other).mpr before)]
        by_cases self : j = a
        · rw [self, edited.dir.type, on.type]
        · rw [(edited.others j (there j before other) self).inode]
      · rw [(free_places before).1, (free_places (absent j other before)).1]
  · rw [Function.update_apply]
    split
    next is => rw [is]
    next other =>
      by_cases before : L.Allocated s j
      · rw [Layout.linksAt, Layout.linksAt, if_pos before, if_pos ((same j other).mpr before),
          edited.links (there j before other)]
      · rw [(free_places before).2.1, (free_places (absent j other before)).2.1]
  · rw [Function.update_apply, Function.update_apply]
    split
    next is => rw [is]
    next other =>
      split
      next self => rw [self, Layout.nameAt, Layout.entriesOf_dir here edited.dir.type, edited.entries]
      next self =>
        by_cases before : L.Allocated s j
        · have kept := edited.others j (there j before other) self
          have type : (L.inode s'.blocks j).type = (L.inode s.blocks j).type := by rw [kept.inode]
          rw [Layout.nameAt, Layout.nameAt, Layout.entriesOf, Layout.entriesOf, type, kept.entries]
          simp only [before, (same j other).mpr before]
        · rw [(free_places before).2.2, (free_places (absent j other before)).2.2]
  · rw [Function.update_apply]
    split
    next is => rw [is]
    next other =>
      by_cases self : j = a
      · rw [self, Layout.contentAt_dir on.type, Layout.contentAt_dir edited.dir.type]
      · by_cases before : L.Allocated s j
        · exact (edited.others j (there j before other) self).contentAt (same j other)
        · rw [Layout.contentAt_free before, Layout.contentAt_free (absent j other before)]

/-- `create` with a free inode and enough blocks. -/
theorem tree_create (ok : Counted L refs s) (on : CallOn L s a) (part : IsPart name)
    (absent : (L.fileTree s).find (L.slot a) name = none) {d₀ : DiskInode} (empty : d₀.Empty) (one : d₀.linkCnt = 1)
    (head : (L.formatted.inodeBitmap.freeIds s.blocks).head? = some n) (slotN : L.SlotId n)
    (enough : growth (L.inode s.blocks a) ((L.inode s.blocks a).size.toNat + 256) + newBlocks d₀ ≤
      (L.formatted.dataBitmap.freeIds s.blocks).length) :
    ∃ s', (Inode.create L.formatted (L.slot a) name d₀).run s = ((.kSuccess, some (L.slot n)), s') ∧ Counted L refs s' ∧
      ¬ L.Allocated s n ∧ L.fileTree s' = (L.fileTree s).create (L.slot a) name d₀.type (L.slot n) := by
  have notDot := isDot_of_isPart part
  have slotA := ok.state.slots a on.here
  rw [Layout.find_slot slotA notDot, nameAt_dir on, Option.map_eq_none_iff, find_eq_none] at absent
  obtain ⟨s', run, ok', same, created⟩ := ok.run_create on part.proper notDot absent empty one head slotN enough
  have free : ¬ L.Allocated s n := fun used => (Bitmap.used_iff.mp used).2 (List.mem_of_head? head)
  have ne : a ≠ n := fun is => free (is ▸ on.here)
  have there : L.Allocated s' n := (same n).mpr (.inr rfl)
  refine ⟨s', run, ok', free, ?_⟩
  have edited := created.edited
  have type := created.new.type
  have old : ∀ j, j ≠ n → (L.Allocated s' j ↔ L.Allocated s j) := fun j other =>
    (same j).trans (or_iff_left other)
  obtain ⟨kinds, links, names, contents⟩ := places_beside on edited ne old fun j before _ => before
  have kind : L.kindAt s' n = some d₀.type := by rw [Layout.kindAt, if_pos there, type]
  have count : L.linksAt s' n = 1 := by
    rw [Layout.linksAt, if_pos there, Layout.links, created.new.linkCnt, one]
    rfl
  -- the only names in the new inode are `.` and `..`
  have dots : L.nameAt s' n = find (newEntries d₀.type n a) := by
    rw [Layout.nameAt, Layout.entriesOf, newEntries]
    by_cases isDir : d₀.type = kDirectory
    · rw [if_pos ⟨there, type.trans isDir⟩, if_pos isDir, (created.new.dots isDir).2]
    · rw [if_neg fun both => isDir (type.symm.trans both.2), if_neg isDir]
  have content : L.contentAt s' n = [] := by
    by_cases isDir : d₀.type = kDirectory
    · exact Layout.contentAt_dir (type.trans isDir)
    · rw [Layout.contentAt, created.new.file isDir, DiskInode.contentOf, empty.size]
      exact ite_self []
  rw [kind] at kinds
  rw [count] at links
  rw [content] at contents
  rw [dots, find_append (ok.distinct on) absent, ← nameAt_dir on] at names
  refine Layout.fileTree_create slotA slotN ne notDot kinds links names contents (fun l other => ?_) fun l => ?_
  · rw [find_newEntries]
    refine ite_eq_right_iff.mpr fun _ => ?_
    simp only [isDot, Bool.or_eq_false_iff, beq_eq_false_iff_ne] at other
    rw [if_neg other.1, if_neg other.2]
  · rw [find_newEntries]
    by_cases isDir : d₀.type = kDirectory
    · rw [if_pos isDir, if_pos isDir, dotsOf]
      by_cases dot : l = [46]
      · rw [if_pos dot, if_pos dot, Option.map_some]
      · rw [if_neg dot, if_neg dot]
        by_cases dots : l = [46, 46]
        · rw [if_pos dots, if_pos dots, Option.map_some]
        · rw [if_neg dots, if_neg dots, Option.map_none]
    · rw [if_neg isDir, if_neg isDir, Option.map_none]

/-- `createInode` with a free inode and enough blocks. -/
theorem tree_createInode (ok : Counted L refs s) (uid gid : UInt16) (on : CallOn L s a) (part : IsPart name)
    (absent : (L.fileTree s).find (L.slot a) name = none) (type : DiskInodeType) (mode : UInt16)
    (head : (L.formatted.inodeBitmap.freeIds s.blocks).head? = some n) (slotN : L.SlotId n)
    (enough : growth (L.inode s.blocks a) ((L.inode s.blocks a).size.toNat + 256) +
      (if type = kDirectory then 1 else 0) ≤ (L.formatted.dataBitmap.freeIds s.blocks).length) :
    ∃ s', (createInode L.formatted uid gid (L.slot a) name type mode).run s = ((.kSuccess, some (L.slot n)), s') ∧
      Counted L refs s' ∧ ¬ L.Allocated s n ∧
      L.fileTree s' = (L.fileTree s).create (L.slot a) name type (L.slot n) := by
  obtain ⟨d, s₁, make, quiet, empty, rfl, one⟩ := DiskInode.run_new type uid gid s
  have blocks := quiet.quiet
  have kept := TreeKept.of_quiet ok quiet
  have tree := kept.fileTree
  have on₁ : CallOn L s₁ a := ⟨(kept.allocated a).mpr on.here, by rw [blocks]; exact on.type, by
    rw [blocks]
    exact on.small⟩
  have moded : DiskInode.Empty { d with mode := d.mode ||| (mode &&& 511) } :=
    ⟨empty.size, empty.direct, empty.one, empty.two⟩
  obtain ⟨s', run, ok', free, grown⟩ := (kept.counted ok).tree_create (n := n) on₁ part (by rw [tree]; exact absent)
    moded one (by rw [blocks]; exact head) slotN (by rw [blocks]; exact enough)
  refine ⟨s', ?_, ok', fun there => free ((kept.allocated n).mpr there), by rw [grown, tree]⟩
  rw [createInode, DevProg.run_bind, make]
  exact run

/-- `remove` of the only name of another inode without entries. -/
theorem tree_remove (ok : Counted L refs s) (on : CallOn L s a)
    (few : ((L.inode s.blocks a).entries s.blocks).length ≤ 33152) (part : IsPart name)
    (last : ∀ x, (name, x) ∈ (L.inode s.blocks a).entries s.blocks → x ≠ a ∧ L.links s.blocks x = 1 ∧
      ∀ y ∈ L.entriesOf s x, isDot y.1 = true) :
    ∃ ret s', (Inode.remove L.formatted (L.slot a) name).run s = (ret, s') ∧ Counted L refs s' ∧
      FileTree.service (.remove (L.slot a) name) (L.fileTree s) ret (L.fileTree s') := by
  have notDot := isDot_of_isPart part
  have slotA := ok.state.slots a on.here
  have distinct := ok.distinct on
  have found := Layout.find_slot (s := s) slotA notDot
  rw [nameAt_dir on] at found
  obtain ⟨ret, s', run, ok', -⟩ := ok.run_remove on few part.proper notDot last
  obtain ⟨ret', s'', run', result⟩ := ok.state.run_remove on.here (ok.searchable on) few
    part.proper (fun _ => id) fun x member => ⟨ok.bound_allocated on notDot member, (last x member).1⟩
  cases run.symm.trans run'
  refine ⟨ret, s', run, ok', ?_⟩
  cases result with
  | absent quiet unbound =>
    rw [find_eq_none.mpr unbound, Option.map_none] at found
    simp only [FileTree.service, found]
    exact ⟨trivial, (TreeKept.of_quiet ok quiet).fileTree⟩
  | kept here more _ _ => exact absurd (last _ here).2.1 more
  | @freed e x here one edited bits blocks =>
    have member := List.mem_of_getElem? here
    obtain ⟨ne, -, dots⟩ := last x member
    have slotX := ok.state.slots x (ok.bound_allocated on notDot member)
    rw [(find_eq_some distinct).mpr member, Option.map_some] at found
    simp only [FileTree.service, found]
    refine ⟨trivial, ?_⟩
    -- the entry was the only link: inode and content go
    have gone : ¬ L.Allocated s' x := fun there => ((bits x).mp there).2 rfl
    have old : ∀ j, j ≠ x → (L.Allocated s' j ↔ L.Allocated s j) := fun j other =>
      (bits j).trans (and_iff_left other)
    obtain ⟨kinds, links, names, contents⟩ := places_beside on edited ne.symm old fun j before other => ⟨before, other⟩
    obtain ⟨kind, count, none⟩ := free_places gone
    rw [kind] at kinds
    rw [count] at links
    rw [Layout.contentAt_free gone] at contents
    rw [none, find_removeAt distinct here, ← nameAt_dir on] at names
    refine Layout.fileTree_free slotA slotX notDot (fun l other => find_eq_none.mpr fun y listed => ?_) kinds links names
      contents
    rw [dots (l, y) listed] at other
    cases other

end Counted

/-! ## The simulation -/

/-- The record at a position. -/
def recordAt (s : Disk) (p : Position) : DiskInode := inodeIn (s.blocks p.blockId) p.blockOffset

/-- There are enough inodes and blocks for the request, and the new inode has a slot in the inode area. -/
def InodeReq.HasSpace (L : Layout) (s : Disk) : InodeReq → Prop
  | .create dir _ type _ =>
      (∃ n, (L.formatted.inodeBitmap.freeIds s.blocks).head? = some n ∧ L.SlotId n) ∧
        growth (recordAt s dir) ((recordAt s dir).size.toNat + 256) + (if type = kDirectory then 1 else 0) ≤
          (L.formatted.dataBitmap.freeIds s.blocks).length
  | .link dir _ _ _ => growth (recordAt s dir) ((recordAt s dir).size.toNat + 256) ≤
      (L.formatted.dataBitmap.freeIds s.blocks).length
  | .writeData inode offset _ size => growth (recordAt s inode) ((offset + size) % 4294967296) ≤
      (L.formatted.dataBitmap.freeIds s.blocks).length
  | .resize inode newSize => growth (recordAt s inode) newSize ≤ (L.formatted.dataBitmap.freeIds s.blocks).length
  | _ => True

/-- The index block that a shrink writes astray, if it leaves blocks under `indirect2`, goes to block 0, which is so
when it leaves at most 2071 data blocks. -/
def InodeReq.StraysNear (s : Disk) : InodeReq → Prop
  | .resize inode newSize => Strays (recordAt s inode) newSize → strayTarget newSize = 0
  | _ => True

/-- What the code relies on: there is space, and no shrink hits a block other than block 0. -/
structure InodeReq.Covered (L : Layout) (s : Disk) (q : InodeReq) : Prop where
  space : q.HasSpace L s
  near : q.StraysNear s

/-- The methods on a device whose states stand for disks, as long as the requests meet a condition on the disk. -/
def Layout.servedOn (L : Layout) (uid gid : UInt16) (C : InodeReq → Disk → Prop) {σ : Type} (device : Handler Block σ)
    (disk : σ → Disk) : Service InodeReq InodeReq.Ans σ :=
  fun q s r s' => C q (disk s) ∧ InodeReq.on L.formatted uid gid device q s r s'

/-- The methods on the disk itself, as long as there is space. -/
abbrev Layout.roomy (L : Layout) (uid gid : UInt16) : Service InodeReq InodeReq.Ans Disk :=
  L.servedOn uid gid (fun q s => q.Covered L s) Store.handler id

/-- The link counts of the disk are right, and its tree is sound. -/
structure OnDisk (L : Layout) (s : Disk) (t : FileTree) : Prop where
  tree : t = L.fileTree s
  counted : ∃ refs, Counted L refs s
  sound : t.Sound

variable {t : FileTree} {uid gid : UInt16} {p : Position}

/-- A directory of the tree is one of the disk. -/
theorem OnDisk.directory (on : OnDisk L s t) (bitmap : L.inodeBitmapBlocks = kInodeBitmapBlocks)
    (isDir : t.kind p = some kDirectory) : ∃ a, p = L.slot a ∧ CallOn L s a := by
  obtain ⟨refs, ok⟩ := on.counted
  have sound := on.sound
  rw [on.tree] at isDir sound
  obtain ⟨a, rfl, here, type⟩ := Layout.kind_some isDir
  exact ⟨a, rfl, ok.callOn sound bitmap here type⟩

theorem OnDisk.few (on : OnDisk L s t) (bitmap : L.inodeBitmapBlocks = kInodeBitmapBlocks) {a : Nat}
    (onA : CallOn L s a) : ((L.inode s.blocks a).entries s.blocks).length ≤ 33152 := by
  obtain ⟨refs, ok⟩ := on.counted
  exact ok.few (on.tree ▸ on.sound) bitmap onA.here onA.type

theorem OnDisk.allocated (on : OnDisk L s t) (some : t.kind p ≠ none) : ∃ i, p = L.slot i ∧ L.Allocated s i := by
  obtain ⟨type, kind⟩ := Option.ne_none_iff_exists'.mp some
  rw [on.tree] at kind
  obtain ⟨i, rfl, here, -⟩ := Layout.kind_some kind
  exact ⟨i, rfl, here⟩

theorem OnDisk.file (on : OnDisk L s t) (isFile : t.kind p = some kFile) :
    ∃ i, p = L.slot i ∧ L.Allocated s i ∧ (L.inode s.blocks i).type = kFile := by
  rw [on.tree] at isFile
  exact Layout.kind_some isFile

theorem OnDisk.kept (on : OnDisk L s t) (ok : Counted L refs s) (kept : TreeKept L s s') : OnDisk L s' t where
  tree := by rw [kept.fileTree, on.tree]
  counted := ⟨refs, kept.counted ok⟩
  sound := on.sound

/-- The look of `sb_rmdir` on the tree. -/
theorem Counted.looksEmpty {i : Nat} {r : Int} (ok : Counted L refs s) (sound : (L.fileTree s).Sound)
    (bitmap : L.inodeBitmapBlocks = kInodeBitmapBlocks) (here : L.Allocated s i)
    (outcome : (L.inode s.blocks i).type ≠ kDirectory ∧ r = -20 ∨ (L.inode s.blocks i).type = kDirectory ∧
      ((∃ x ∈ (L.inode s.blocks i).entries s.blocks, x.1 ≠ [] ∧ isDot x.1 = false) ∧ r = -39 ∨
        (∀ x ∈ (L.inode s.blocks i).entries s.blocks, x.1 ≠ [] → isDot x.1 = true) ∧ (r = 0 ∨ r = -39 ∧
          ∀ n, (L.inode s.blocks i).size.toNat = 256 * n → n = 0 ∨ 16 < n))) :
    (L.fileTree s).LooksEmpty (L.slot i) r := by
  have slotId := ok.state.slots i here
  have kind : (L.fileTree s).kind (L.slot i) = some (L.inode s.blocks i).type := by
    rw [Layout.kind_slot slotId, Layout.kindAt, if_pos here]
  obtain ⟨type, rfl⟩ | ⟨type, outcome⟩ := outcome
  · exact .notDirectory fun isDir => type (Option.some.inj (kind.symm.trans isDir))
  · have onI := ok.callOn sound bitmap here type
    have isDir : (L.fileTree s).kind (L.slot i) = some kDirectory := kind.trans (congrArg some type)
    obtain ⟨⟨⟨name, x⟩, member, -, real⟩, rfl⟩ | ⟨only, outcome⟩ := outcome
    · refine .notEmpty isDir (.inl ⟨name, ?_⟩)
      rw [Layout.find_slot slotId real, nameAt_dir onI, ne_eq, Option.map_eq_none_iff]
      exact mem_keys.mp (List.mem_map_of_mem member)
    · -- all entries are `.` or `..`
      have dots : ∀ name ∈ ((L.inode s.blocks i).entries s.blocks).map Prod.fst, name ∈ [[46], [46, 46]] := by
        intro name bound
        obtain ⟨x, member, rfl⟩ := List.mem_map.mp bound
        have dot := only x member ((ok.dirs i here type).names _ member).some
        rw [isDot, Bool.or_eq_true, beq_iff_eq, beq_iff_eq] at dot
        rw [List.mem_cons, List.mem_singleton]
        exact dot
      obtain rfl | ⟨rfl, odd⟩ := outcome
      · refine .empty isDir fun name => ?_
        cases dot : isDot name with
        | true => exact if_pos dot
        | false =>
          rw [Layout.find_slot slotId dot, nameAt_dir onI, Option.map_eq_none_iff, find_eq_none]
          intro x member
          have named := (ok.dirs i here type).names _ member
          rw [only _ member named.some] at dot
          cases dot
      · -- the names are distinct, so there are at most two of them
        have few := (List.subperm_of_subset (ok.distinct onI) dots).length_le
        rw [List.length_map, List.length_cons, List.length_singleton] at few
        have none : (L.inode s.blocks i).entries s.blocks = [] := by
          have length := odd _ (ok.dirs i here type).aligned
          exact List.eq_nil_iff_length_eq_zero.mpr (by omega)
        refine .notEmpty isDir (.inr fun name => ?_)
        change (if isDot name then L.named (L.nameAt s) (L.slot i) name else Option.none) = Option.none
        rw [Layout.named, Layout.atPlace_slot slotId, nameAt_dir onI, none]
        exact ite_self _

/-- Each request that fits and is covered does on the disk what it does to the tree. -/
theorem OnDisk.step (bitmap : L.inodeBitmapBlocks = kInodeBitmapBlocks) (on : OnDisk L s t) {q : InodeReq} {r : q.Ans}
    (allowed : q.Allowed t) (answer : L.roomy uid gid q s r s') :
    ∃ t', FileTree.service q t r t' ∧ OnDisk L s' t' := by
  obtain ⟨sound, fits⟩ := allowed
  obtain ⟨covered, defined, run⟩ := answer
  obtain ⟨refs, ok⟩ := on.counted
  have done : ∀ {refs' : Nat → Nat}, Counted L refs' s' → FileTree.service q (L.fileTree s) r (L.fileTree s') →
      ∃ t', FileTree.service q t r t' ∧ OnDisk L s' t' := by
    intro refs' ok' answer
    rw [← on.tree] at answer
    exact ⟨L.fileTree s', answer, rfl, ⟨refs', ok'⟩, sound.serve fits answer⟩
  -- a request that changes neither a directory nor a link count
  have same : TreeKept L s s' → ∃ t', t' = t ∧ OnDisk L s' t' := fun kept => ⟨t, rfl, on.kept ok kept⟩
  have content : ∀ {i}, L.Allocated s i → (L.inode s.blocks i).type = kFile →
      t.content (L.slot i) = (L.inode s.blocks i).contentOf s.blocks := by
    intro i here file
    rw [on.tree, Layout.content_slot (ok.state.slots i here), Layout.contentAt_file here file]
  cases q with
  | undefined => exact absurd rfl defined
  | find dir name =>
    obtain ⟨allocated, part⟩ := fits
    by_cases isDir : t.kind dir = some kDirectory
    · obtain ⟨a, rfl, onA⟩ := on.directory bitmap isDir
      obtain ⟨s'', run', kept⟩ := ok.tree_find onA part
      cases run.symm.trans run'
      exact ⟨t, ⟨by rw [on.tree], rfl⟩, on.kept ok kept⟩
    · obtain ⟨i, rfl, here⟩ := on.allocated allocated
      have notDir : (L.inode s.blocks i).type ≠ kDirectory := by
        rintro is
        rw [on.tree, Layout.kind_slot (ok.state.slots i here), Layout.kindAt, if_pos here, is] at isDir
        exact isDir rfl
      have none : (Inode.find L.formatted (L.slot i) name).run s = (none, s) := by
        simp only [Inode.find, DevProg.run_bind, ok.state.run_readInode here, ne_eq, notDir, not_false_eq_true, if_true,
          DevProg.run_pure]
      cases run.symm.trans none
      exact ⟨t, ⟨(sound.no_entries isDir name).symm, rfl⟩, on⟩
  | create dir name type mode =>
    obtain ⟨isDir, part, absent⟩ := fits
    obtain ⟨⟨n, head, slotN⟩, enough⟩ := covered.space
    obtain ⟨a, rfl, onA⟩ := on.directory bitmap isDir
    obtain ⟨s'', run', ok', free, made⟩ := ok.tree_createInode uid gid onA part (by rw [← on.tree]; exact absent) type mode
      head slotN enough
    cases run.symm.trans run'
    exact done ok' ⟨L.slot n, by rw [Layout.kind_slot slotN, Layout.kindAt, if_neg free], rfl, made⟩
  | remove dir name =>
    obtain ⟨isDir, part, last⟩ := fits
    obtain ⟨a, rfl, onA⟩ := on.directory bitmap isDir
    have notDot := isDot_of_isPart part
    obtain ⟨r', s'', run', ok', answer⟩ := ok.tree_remove onA (on.few bitmap onA) part fun x member => by
      have there := ok.bound_allocated onA notDot member
      have slotX := ok.state.slots x there
      have found : t.find (L.slot a) name = some (L.slot x) := by
        rw [on.tree, Layout.find_slot (ok.state.slots a onA.here) notDot, nameAt_dir onA,
          (find_eq_some (ok.distinct onA)).mpr member, Option.map_some]
      obtain ⟨ne, empty⟩ := last _ found
      refine ⟨fun is => ne (is ▸ rfl), ?_, fun y listed => ?_⟩
      · have one := sound.links found
        rw [on.tree, Layout.links_slot slotX, Layout.linksAt, if_pos there] at one
        exact UInt16.toNat_inj.mp one
      · by_contra other
        have dot : isDot y.1 = false := Bool.not_eq_true _ ▸ other
        have none := empty y.1
        obtain ⟨-, type, listed'⟩ := mem_entriesOf listed
        rw [on.tree, Layout.find_slot slotX dot, Layout.nameAt, Option.map_eq_none_iff, find_eq_none] at none
        exact none y.2 listed
    cases run.symm.trans run'
    exact done ok' answer
  | link dir name inode replace =>
    obtain ⟨isDir, part, allocated, ne, -, zero⟩ := fits
    obtain ⟨a, rfl, onA⟩ := on.directory bitmap isDir
    obtain ⟨x, rfl, there⟩ := on.allocated allocated
    rw [on.tree, Layout.links_slot (ok.state.slots x there), Layout.linksAt, if_pos there] at zero
    obtain ⟨r', s'', refs', run', ok', answer⟩ := ok.tree_link onA part there (fun is => ne (is ▸ rfl)) zero replace
      covered.space
    cases run.symm.trans run'
    exact done ok' answer
  | unlink dir name =>
    obtain ⟨isDir, part⟩ := fits
    obtain ⟨a, rfl, onA⟩ := on.directory bitmap isDir
    obtain ⟨r', s'', run', ok', answer⟩ := ok.tree_unlink onA (on.few bitmap onA) part
    cases run.symm.trans run'
    exact done ok' answer
  | checkEmpty dir =>
    obtain ⟨i, rfl, here⟩ := on.allocated fits
    obtain ⟨r', s'', run', looked, outcome⟩ := ok.state.run_checkEmpty_any uid gid here
    cases run.symm.trans run'
    refine ⟨t, ⟨?_, rfl⟩, on.kept ok (.of_looked ok here looked)⟩
    rw [on.tree] at sound ⊢
    exact ok.looksEmpty sound bitmap here outcome
  | readData inode offset buf size =>
    obtain ⟨i, rfl, here, file⟩ := on.file fits
    obtain ⟨r', s'', run', looked⟩ := ok.state.run_readData_any here offset buf size
    cases run.symm.trans run'
    refine ⟨t, ⟨?_, rfl⟩, on.kept ok (.of_looked ok here looked)⟩
    rw [content here file]
    exact ok.state.readsAs here run
  | writeData inode offset buf size =>
    obtain ⟨isFile, start, small⟩ := fits
    obtain ⟨i, rfl, here, file⟩ := on.file isFile
    obtain ⟨r', s'', run', step, -⟩ := ok.state.run_writeData_any here start small covered.space buf
    cases run.symm.trans run'
    obtain ⟨ok', tree⟩ := step.setContent ok here file
    have writes := ok.state.writesAs here covered.space run
    rw [← Layout.contentAt_file here file, ← Layout.content_slot (ok.state.slots i here)] at writes
    exact done ok' ⟨_, writes, tree⟩
  | resize inode newSize =>
    obtain ⟨isFile, small⟩ := fits
    obtain ⟨i, rfl, here, file⟩ := on.file isFile
    obtain ⟨worked, success, cut⟩ := ok.state.cut here file small covered.near covered.space run
    obtain ⟨ok', tree⟩ := worked.fileStep.setContent ok here file
    rw [← Layout.contentAt_file here file, ← Layout.content_slot (ok.state.slots i here)] at cut
    exact done ok' ⟨_, success, cut, tree⟩
  | sync inode metadata =>
    have quiet := (readOnly_sync inode metadata).touches s
    rw [show (Inode.sync inode metadata).run s = (r, s') from run] at quiet
    exact same (.of_quiet ok quiet)

end

end Sbfs
