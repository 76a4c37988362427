import Sbfs.PathCoherence

/-! # Path strings denote walks

`findAlong` is the walk that a path stands for: `find` with one component after the other,
up to the first that is not there.  `resolveNoCache` of the string, in either spelling, is
this walk, and the strings that `splitFromLastSlash` and `split` cut out of it belong to
parts of the walk (`path_denotes_walk`).  The components are arbitrary strings without a
slash; the equations are between programs, so that they hold over every directory tree and
also where `find` fails for another reason. -/

namespace Sbfs

open ReqProg

/-- Apply `find` with each of the names in turn; `none` once a step fails. -/
def VfsProg.findAlong (dir : Position) : List Name → VfsProg (Option Position)
  | [] => return some dir
  | c :: cs => do
    match ← VfsProg.find dir c with
    | none => return none
    | some next => findAlong next cs

open VfsProg

section

variable {dir root : Position} {c : Name} {cs : List Name}

theorem walkNoCache_eq (dir : Position) (cs : List Name) :
    PathResolver.walkNoCache dir cs = (do return (← findAlong dir cs).getD .invalid) := by
  induction cs generalizing dir with
  | nil => rfl
  | cons c cs ih =>
    rw [PathResolver.walkNoCache, findAlong, bind_assoc]
    refine bind_congr fun next => ?_
    cases next with
    | none => rfl
    | some next => exact ih next

/-- The walk to an entry is the walk to its directory and one more step. -/
theorem findAlong_concat (dir : Position) (cs : List Name) (c : Name) :
    findAlong dir (cs ++ [c]) = (do
      match ← findAlong dir cs with
      | none => return none
      | some parent => VfsProg.find parent c) := by
  induction cs generalizing dir with
  | nil =>
    rw [List.nil_append, findAlong, findAlong, pure_bind]
    refine (bind_congr fun next => ?_).trans (bind_pure _)
    cases next <;> rfl
  | cons d cs ih =>
    rw [List.cons_append, findAlong, findAlong, bind_assoc]
    refine bind_congr fun next => ?_
    cases next with
    | none => rfl
    | some next => exact ih next

/-- On a map of directories the walk is that of the map. -/
theorem findAlong_runs {ns u : Namespace} {x : Option Position} :
    Runs Namespace.service (findAlong dir cs) ns x u ↔ x = NamedTree.walk ns.find dir cs ∧ u = ns := by
  induction cs generalizing dir with
  | nil => exact runs_pure
  | cons c cs ih =>
    simp only [findAlong, VfsProg.find, runs_bind, runs_call, NamedTree.walk]
    cases found : ns.find dir c with
    | none =>
      constructor
      · rintro ⟨_, _, ⟨rfl, rfl⟩, runs⟩
        rw [found] at runs
        exact runs_pure.mp runs
      · rintro ⟨rfl, rfl⟩
        exact ⟨none, u, ⟨found.symm, rfl⟩, .done⟩
    | some next =>
      rw [Option.bind_some, ← ih]
      constructor
      · rintro ⟨_, _, ⟨rfl, rfl⟩, runs⟩
        rw [found] at runs
        exact runs
      · exact fun runs => ⟨some next, ns, ⟨found.symm, rfl⟩, runs⟩

/-! ## Resolution of the string -/

/-- The string between the two slashes at the ends. -/
theorem strip_spelled {path : Name} (nonempty : cs ≠ []) (parts : ∀ c ∈ cs, IsComponent c)
    (spelled : path = pathOf cs ∨ path = pathOf cs ++ [slash]) :
    (removeEndSlash path).drop 1 = keyOf cs := by
  rcases spelled with rfl | rfl
  · rw [removeEndSlash_pathOf nonempty parts, keyOf]
  · rw [removeEndSlash_slash, keyOf]

theorem resolveNoCache_spelled {path : Name} (nonempty : cs ≠ []) (parts : ∀ c ∈ cs, IsComponent c)
    (spelled : path = pathOf cs ∨ path = pathOf cs ++ [slash]) :
    PathResolver.resolveNoCache root path = (do return (← findAlong root cs).getD .invalid) := by
  have stripped := strip_spelled nonempty parts spelled
  have shape : path.head? = some slash ∧ path ≠ [slash] := by
    cases cs with
    | nil => exact absurd rfl nonempty
    | cons c cs =>
      have first := (parts c List.mem_cons_self).nonempty
      rcases spelled with rfl | rfl
      · exact ⟨rfl, fun same => first (List.append_eq_nil_iff.mp (List.cons.inj same).2).1⟩
      · exact ⟨rfl, fun same => by simp [pathOf_cons] at same⟩
  rw [PathResolver.resolveNoCache, if_neg (not_not_intro shape.1), if_neg shape.2, stripped,
    split_parts nonempty parts, walkNoCache_eq]

/-- The string before the last component leads to the directory, also where that is the
root. -/
theorem resolveNoCache_parent (parts : ∀ c ∈ cs, IsComponent c) :
    PathResolver.resolveNoCache root (pathOf cs ++ [slash]) =
      (do return (← findAlong root cs).getD .invalid) := by
  by_cases nonempty : cs = []
  · subst nonempty
    rfl
  · exact resolveNoCache_spelled nonempty parts (.inr rfl)

/-! ## The keys -/

theorem keyOf_eq_intercalate (cs : List Name) : keyOf cs = List.intercalate [slash] cs := by
  induction cs with
  | nil => rfl
  | cons c cs ih =>
    rw [keyOf_cons]
    cases cs with
    | nil => simp [pathOf, List.intercalate]
    | cons d cs =>
      rw [pathOf_cons, ← keyOf_cons, ih]
      simp [List.intercalate]

theorem getElem?_keysFrom (done cs : List Name) {i : Nat} (inside : i < cs.length) :
    (keysFrom done cs)[i]? = some (keyOf (done ++ cs.take (i + 1))) := by
  induction cs generalizing done i with
  | nil => cases inside
  | cons c cs ih =>
    cases i with
    | zero => simp [keysFrom]
    | succ i =>
      rw [keysFrom, List.getElem?_cons_succ, ih _ (Nat.lt_of_succ_lt_succ inside)]
      simp

/-- For every list of components and every directory tree: the path of the components, with
or without a slash at its end, is resolved by the walk along them, and
`splitFromLastSlash` gives the last component and a string that is resolved by the walk
along the others, so that the walk is that of the parent and one `find`.  The two vectors
of `split` have the length of the path, and the keys are those of its prefixes. -/
theorem path_denotes_walk (root : Position) (cs : List Name) (c : Name)
    (parts : ∀ d ∈ cs ++ [c], IsComponent d) :
    (∀ path, path = pathOf (cs ++ [c]) ∨ path = pathOf (cs ++ [c]) ++ [slash] →
      PathResolver.resolveNoCache root path =
          (do return (← findAlong root (cs ++ [c])).getD .invalid) ∧
        (split ((removeEndSlash path).drop 1) false).length = (cs ++ [c]).length ∧
        (split ((removeEndSlash path).drop 1) true).length = (cs ++ [c]).length ∧
        ∀ i, i < (cs ++ [c]).length → (split ((removeEndSlash path).drop 1) true)[i]? =
          some (List.intercalate [slash] ((cs ++ [c]).take (i + 1)))) ∧
    (splitFromLastSlash (pathOf (cs ++ [c]))).2 = c ∧
    PathResolver.resolveNoCache root (splitFromLastSlash (pathOf (cs ++ [c]))).1 =
      (do return (← findAlong root cs).getD .invalid) ∧
    findAlong root (cs ++ [c]) = (do
      match ← findAlong root cs with
      | none => return none
      | some parent => VfsProg.find parent c) ∧
    ∀ (ns u : Namespace) (ds : List Name) (x : Option Position),
      Runs Namespace.service (findAlong root ds) ns x u ↔ x = NamedTree.walk ns.find root ds ∧ u = ns := by
  have nonempty : cs ++ [c] ≠ [] := by simp
  have last := parts c (by simp)
  refine ⟨fun path spelled => ⟨resolveNoCache_spelled nonempty parts spelled, ?_, ?_, ?_⟩, ?_, ?_,
    findAlong_concat root cs c, fun ns u ds x => findAlong_runs⟩
  · rw [strip_spelled nonempty parts spelled, split_parts nonempty parts]
  · rw [strip_spelled nonempty parts spelled, split_keys nonempty parts, length_keysFrom]
  · intro i inside
    rw [strip_spelled nonempty parts spelled, split_keys nonempty parts, getElem?_keysFrom [] _ inside,
      keyOf_eq_intercalate, List.nil_append]
  · rw [splitFromLastSlash_pathOf cs last]
  · rw [splitFromLastSlash_pathOf cs last]
    exact resolveNoCache_parent fun d member => parts d (List.mem_append_left _ member)

/-- The law on the path `/a/b`. -/
theorem path_denotes_walk_ab :
    (∀ c ∈ [[97]] ++ [[98]], IsComponent c) ∧
    PathResolver.resolveNoCache ⟨2, 0⟩ [47, 97, 47, 98] =
      (do return (← findAlong ⟨2, 0⟩ [[97], [98]]).getD .invalid) := by
  have parts : ∀ c ∈ [[97]] ++ [[98]], IsComponent c := by
    intro c member
    simp only [List.cons_append, List.nil_append, List.mem_cons, List.not_mem_nil, or_false] at member
    rcases member with rfl | rfl
    · exact ⟨by decide, by decide⟩
    · exact ⟨by decide, by decide⟩
  exact ⟨parts, ((path_denotes_walk ⟨2, 0⟩ [[97]] [98] parts).1 _ (.inl rfl)).1⟩

end

end Sbfs
