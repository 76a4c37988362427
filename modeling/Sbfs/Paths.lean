import Sbfs.Vfs
import Mathlib.Data.List.Infix

/-! # Canonical paths and their cache keys

The string functions of `path_resolver.cpp` on the paths that the kernel passes.  A path
is given by its parts; `pathOf` writes it out, `keyOf` is the key under which the cache
keeps it, and `keysFrom` are the keys of its prefixes. -/

namespace Sbfs

/-- What separates the parts of a path well: a string that is not empty and has no slash. -/
structure IsComponent (c : Name) : Prop where
  nonempty : c ≠ []
  noSlash : slash ∉ c

/-- A part of a canonical path. -/
structure IsPart (c : Name) : Prop where
  nonempty : c ≠ []
  noSlash : slash ∉ c
  noZero : (0 : UInt8) ∉ c
  short : c.length ≤ kMaxDirNameLength
  notDot : c ≠ [46]
  notDots : c ≠ [46, 46]

theorem IsPart.component {c : Name} (part : IsPart c) : IsComponent c := ⟨part.nonempty, part.noSlash⟩

theorem components {cs : List Name} (parts : ∀ c ∈ cs, IsPart c) : ∀ c ∈ cs, IsComponent c :=
  fun c member => (parts c member).component

/-- `/a/b/c` for the parts `a`, `b` and `c`. -/
def pathOf (cs : List Name) : Name := cs.flatMap (slash :: ·)

/-- `a/b/c`. -/
def keyOf (cs : List Name) : Name := (pathOf cs).drop 1

/-- The canonical path with the given parts. -/
def canonical (cs : List Name) : Name := if cs = [] then [slash] else pathOf cs

/-- The keys of the prefixes of `done ++ cs` that are longer than `done`. -/
def keysFrom (done : List Name) : List Name → List Name
  | [] => []
  | c :: cs => keyOf (done ++ [c]) :: keysFrom (done ++ [c]) cs

theorem pathOf_cons (c : Name) (cs : List Name) : pathOf (c :: cs) = slash :: (c ++ pathOf cs) := rfl

theorem pathOf_append (cs ds : List Name) : pathOf (cs ++ ds) = pathOf cs ++ pathOf ds :=
  List.flatMap_append

theorem pathOf_concat (cs : List Name) (c : Name) : pathOf (cs ++ [c]) = pathOf cs ++ slash :: c := by
  rw [pathOf_append, pathOf_cons]
  simp [pathOf]

theorem keyOf_cons (c : Name) (cs : List Name) : keyOf (c :: cs) = c ++ pathOf cs := by
  rw [keyOf, pathOf_cons, List.drop_one, List.tail_cons]

theorem keyOf_append {cs : List Name} (nonempty : cs ≠ []) (ds : List Name) :
    keyOf (cs ++ ds) = keyOf cs ++ pathOf ds := by
  cases cs with
  | nil => exact absurd rfl nonempty
  | cons c cs => rw [List.cons_append, keyOf_cons, keyOf_cons, pathOf_append, List.append_assoc]

/-- Keys grow with their paths, so that a prefix of a path gives a prefix of its key. -/
theorem keyOf_mono {cs ds : List Name} (nonempty : cs ≠ []) (pre : cs <+: ds) :
    keyOf cs <+: keyOf ds := by
  obtain ⟨rest, rfl⟩ := pre
  rw [keyOf_append nonempty]
  exact List.prefix_append _ _

theorem slash_keyOf (cs : List Name) : slash :: keyOf cs = canonical cs := by
  cases cs with
  | nil => rfl
  | cons c cs => rw [canonical, if_neg (List.cons_ne_nil c cs), keyOf_cons, pathOf_cons]

/-- A path without its first slash, with nothing or a slash after it. -/
theorem pathOf_getLast {cs : List Name} (nonempty : cs ≠ []) (parts : ∀ c ∈ cs, IsComponent c) :
    (pathOf cs).getLast? ≠ some slash := by
  cases cs using List.reverseRecOn with
  | nil => exact absurd rfl nonempty
  | append_singleton cs c =>
    have part := parts c (by simp)
    rw [pathOf_concat, List.getLast?_append_of_ne_nil _ (by simp),
      List.getLast?_cons_of_ne_nil part.nonempty]
    intro last
    exact part.noSlash (List.mem_of_getLast? last)

theorem removeEndSlash_pathOf {cs : List Name} (nonempty : cs ≠ []) (parts : ∀ c ∈ cs, IsComponent c) :
    removeEndSlash (pathOf cs) = pathOf cs := by
  rw [removeEndSlash, if_neg (pathOf_getLast nonempty parts)]

theorem removeEndSlash_slash (path : Name) : removeEndSlash (path ++ [slash]) = path := by
  simp [removeEndSlash]

/-! ## Splitting -/

theorem splitFrom_append {c : Name} (noSlash : slash ∉ c) (reservePrev : Bool) (prev cur rest : Name) :
    splitFrom reservePrev prev cur (c ++ rest) = splitFrom reservePrev prev (cur ++ c) rest := by
  induction c generalizing cur with
  | nil => simp
  | cons a c ih =>
    have first : a ≠ slash := fun same => noSlash (same ▸ List.mem_cons_self)
    have tail : slash ∉ c := fun member => noSlash (List.mem_cons_of_mem _ member)
    rw [List.cons_append, splitFrom, if_neg first, ih tail, List.append_assoc]
    rfl

/-- The characters before the part that follows `done`. -/
def startOf (done : List Name) : Name := (pathOf done ++ [slash]).drop 1

theorem startOf_part (done : List Name) (c : Name) : startOf done ++ c = keyOf (done ++ [c]) := by
  cases done with
  | nil => simp [startOf, keyOf, pathOf]
  | cons d done => simp [startOf, keyOf, pathOf]

theorem startOf_concat (done : List Name) (c : Name) :
    startOf done ++ c ++ [slash] = startOf (done ++ [c]) := by
  cases done with
  | nil => simp [startOf, pathOf]
  | cons d done => simp [startOf, pathOf]

theorem splitFrom_last {c : Name} (noSlash : slash ∉ c) (reservePrev : Bool) (prev : Name) :
    splitFrom reservePrev prev [] c = [if reservePrev then prev ++ c else c] := by
  have split := splitFrom_append noSlash reservePrev prev [] []
  rw [List.append_nil, List.nil_append] at split
  rw [split, splitFrom]

theorem splitFrom_part {c : Name} (noSlash : slash ∉ c) (reservePrev : Bool) (prev rest : Name) :
    splitFrom reservePrev prev [] (c ++ slash :: rest) =
      (if reservePrev then prev ++ c else c) ::
        splitFrom reservePrev (prev ++ c ++ [slash]) [] rest := by
  rw [splitFrom_append noSlash, List.nil_append, splitFrom, if_pos rfl]

theorem splitFrom_parts (prev : Name) {c : Name} {cs : List Name} (parts : ∀ d ∈ c :: cs, IsComponent d) :
    splitFrom false prev [] (c ++ pathOf cs) = c :: cs := by
  have noSlash := (parts c List.mem_cons_self).noSlash
  induction cs generalizing prev c with
  | nil =>
    rw [pathOf, List.flatMap_nil, List.append_nil, splitFrom_last noSlash]
    rfl
  | cons d cs ih =>
    have rest : ∀ e ∈ d :: cs, IsComponent e := fun e member => parts e (List.mem_cons_of_mem _ member)
    rw [pathOf_cons, splitFrom_part noSlash, ih _ rest (rest d List.mem_cons_self).noSlash]
    rfl

theorem splitFrom_keys (done : List Name) {c : Name} {cs : List Name}
    (parts : ∀ d ∈ c :: cs, IsComponent d) :
    splitFrom true (startOf done) [] (c ++ pathOf cs) = keysFrom done (c :: cs) := by
  have noSlash := (parts c List.mem_cons_self).noSlash
  induction cs generalizing done c with
  | nil =>
    rw [pathOf, List.flatMap_nil, List.append_nil, splitFrom_last noSlash, if_pos rfl, startOf_part]
    rfl
  | cons d cs ih =>
    have rest : ∀ e ∈ d :: cs, IsComponent e := fun e member => parts e (List.mem_cons_of_mem _ member)
    rw [pathOf_cons, splitFrom_part noSlash, if_pos rfl, startOf_concat,
      ih _ rest (rest d List.mem_cons_self).noSlash, startOf_part]
    rfl

theorem split_parts {cs : List Name} (nonempty : cs ≠ []) (parts : ∀ c ∈ cs, IsComponent c) :
    split (keyOf cs) false = cs := by
  cases cs with
  | nil => exact absurd rfl nonempty
  | cons c cs => rw [split, keyOf_cons, splitFrom_parts _ parts]

theorem split_keys {cs : List Name} (nonempty : cs ≠ []) (parts : ∀ c ∈ cs, IsComponent c) :
    split (keyOf cs) true = keysFrom [] cs := by
  cases cs with
  | nil => exact absurd rfl nonempty
  | cons c cs =>
    rw [split, keyOf_cons]
    exact splitFrom_keys [] parts

theorem length_keysFrom (done cs : List Name) : (keysFrom done cs).length = cs.length := by
  induction cs generalizing done with
  | nil => rfl
  | cons c cs ih => rw [keysFrom, List.length_cons, List.length_cons, ih]

theorem zip_keysFrom_append (done ds cs : List Name) :
    (ds ++ cs).zip (keysFrom done (ds ++ cs)) =
      ds.zip (keysFrom done ds) ++ cs.zip (keysFrom (done ++ ds) cs) := by
  induction ds generalizing done with
  | nil => simp [keysFrom]
  | cons d ds ih =>
    simp only [List.cons_append, keysFrom, List.zip_cons_cons, ih, List.append_assoc,
      List.cons_append, List.nil_append]

/-- The parts that are left after a prefix, with their keys. -/
theorem drop_zip_keysFrom (ds cs : List Name) :
    ((ds ++ cs).zip (keysFrom [] (ds ++ cs))).drop ds.length = cs.zip (keysFrom ds cs) := by
  have length : (ds.zip (keysFrom [] ds)).length = ds.length := by
    simp [length_keysFrom]
  rw [zip_keysFrom_append, List.nil_append, List.drop_append_of_le_length (by omega), ← length,
    List.drop_length, List.nil_append]

/-- `splitFromLastSlash` takes the last part off. -/
theorem splitFromLastSlash_pathOf (cs : List Name) {c : Name} (part : IsComponent c) :
    splitFromLastSlash (pathOf (cs ++ [c])) = (pathOf cs ++ [slash], c) := by
  have written : pathOf (cs ++ [c]) = (pathOf cs ++ [slash]) ++ c := by
    rw [pathOf_concat, List.append_assoc]
    rfl
  have last : ((pathOf (cs ++ [c])).reverse.takeWhile (· ≠ slash)).reverse = c := by
    rw [written, List.reverse_append, List.takeWhile_append_of_pos]
    · simp
    · intro a member
      simp only [List.mem_reverse] at member
      simp only [ne_eq, decide_eq_true_eq]
      exact fun same => part.noSlash (same ▸ member)
  rw [splitFromLastSlash, last, written, List.length_append, Nat.add_sub_cancel, List.take_left']
  rfl

end Sbfs
