import Sbfs.FailedCreate
import Sbfs.Paths

/-! # Names that do not fit

An entry holds 251 bytes of a name, and `find` compares all of the name that it looks for.
`create` cuts a longer name off without a word, and nothing that `find` reads is equal to the
whole name. -/

namespace Sbfs

open Slot

/-- `f_namemax`, as `sb_statfs` reports it. -/
def namemax : Nat := 255

/-- A name as a caller of `create` chooses it. -/
structure FileName (name : Name) : Prop where
  component : IsComponent name
  noZero : ∀ c ∈ name, c ≠ 0
  fits : name.length ≤ namemax

/-! ## What is compared -/

theorem cString_full {f : Mem} {n : Nat} (full : ∀ p, p < n → f p ≠ 0) : (cString f n).length = n := by
  induction n generalizing f with
  | zero => rfl
  | succ n ih =>
    rw [cString, if_neg (full 0 (by omega)), List.length_cons, ih fun p inside => full (p + 1) (by omega)]

/-- The name in a field ends before the field does. -/
def Terminated (f : Mem) : Prop := (cString f 252).length ≤ 251

theorem strEq_long {f : Mem} {name : Name} (ends : Terminated f) (noZero : ∀ c ∈ name, c ≠ 0)
    (long : 251 < name.length) : strEq f name = false := by
  by_contra same
  rw [Bool.not_eq_false, strEq, Bool.and_eq_true, List.all_eq_true] at same
  have full : (cString f 252).length = 252 := by
    refine cString_full fun p inside => ?_
    have inName : p < name.length := by omega
    have byte := same.1 p (List.mem_range.mpr inName)
    rw [beq_iff_eq, List.getD_eq_getElem?_getD, List.getElem?_eq_getElem inName, Option.getD_some] at byte
    rw [byte]
    exact noZero _ (List.getElem_mem inName)
  rw [Terminated, full] at ends
  omega

/-- Every entry of the buffer ends. -/
def BufferEnds (dirBlk : Mem) : Prop := ∀ j, j < 16 → Terminated fun p => dirBlk (256 * j + p)

theorem findEntry_long {dirBlk : Mem} {name : Name} (ends : BufferEnds dirBlk) (noZero : ∀ c ∈ name, c ≠ 0)
    (long : 251 < name.length) : findEntry dirBlk name = none := by
  refine List.find?_eq_none.mpr fun j member => ?_
  rw [strEq_long (ends j (List.mem_range.mp member)) noZero long]
  exact Bool.false_ne_true

/-! ## The search for a long name -/

/-- A directory as a table: nothing is said about which names it has. -/
structure EntryTable (d : DiskInode) (D : Nat → Block) : Prop where
  type : d.type = kDirectory
  aligned : d.size.toNat = 256 * (d.entries D).length
  terminated : ∀ x ∈ d.entries D, x.1.length ≤ 251

section

variable {bm : Bitmap} {d d' : DiskInode} {s s' : Disk} {name : Name} {i m n : Nat}

theorem BufferEnds.scanned {f buf got : Mem} (ends : BufferEnds buf)
    (terminated : ∀ e, e < m → (entryAt f e).1.length ≤ 251) (scanned : Scanned f m i buf got) :
    BufferEnds got := by
  intro j inside
  by_cases inFile : 16 * i + j < m
  · have here := scanned.block j inside inFile
    have short := terminated _ inFile
    rw [← here] at short
    exact short
  · have old := ends j inside
    rw [Terminated, ← scanned.stale j inside (Nat.le_of_not_lt inFile)] at old
    exact old

/-- Any round of the search. -/
theorem run_scanRound_any (map : WellMapped bm d s.blocks) (segment : bm.Segment s.count)
    (failId : s.count ≤ kFailId) (aligned : d.size.toNat = 256 * m) (range : i < 1048576) (buf : Mem) :
    ∃ ret got d' s', (d.readData (i * 4096 % 4294967296) 4096 buf).run s = ((ret, got, d'), s') ∧
      Retimed d d' ∧ Touches (fun _ => False) s s' ∧
      (ret ≠ -1 → i < 524288 ∧ Scanned (d.byte s.blocks) m i buf got) := by
  by_cases low : i < 524288
  · by_cases inside : 4096 * i < d.size.toNat
    · obtain ⟨ret, got, d', s', run, retimed, quiet, scanned, -⟩ :=
        run_scanRound_inside map segment failId aligned inside low buf
      exact ⟨ret, got, d', s', run, retimed, quiet, fun _ => ⟨low, scanned⟩⟩
    · obtain ⟨ret, d', s', run, -, retimed, quiet⟩ := run_diskReadData_nothing (d := d) buf
        (show 0 < 4096 by omega) (show 4096 * i < 4294967296 by omega) failId (by omega)
      refine ⟨ret, buf, d', s', ?_, retimed, quiet, fun _ => ⟨low, fun j _ inFile => ?_, fun _ _ _ => rfl⟩⟩
      · rw [show i * 4096 % 4294967296 = 4096 * i by omega]
        exact run
      · omega
  · obtain ⟨got, d', s', run, retimed, quiet⟩ := run_scanRound_past (d := d) failId (.inr (by omega)) range buf
    exact ⟨-1, got, d', s', run, retimed, quiet, fun ok => absurd rfl ok⟩

/-- The search for a name of 252 bytes or more finds nothing. -/
theorem run_scanFrom_long (noZero : ∀ c ∈ name, c ≠ 0) (long : 251 < name.length)
    (map : WellMapped bm d s.blocks) (segment : bm.Segment s.count) (failId : s.count ≤ kFailId)
    (aligned : d.size.toNat = 256 * m) (terminated : ∀ e, e < m → (entryAt (d.byte s.blocks) e).1.length ≤ 251)
    (range : i < 1048576) {dirBlk : Mem} (ends : BufferEnds dirBlk) :
    ∃ r d' s', (scanFrom name n i dirBlk d).run s = ((r, d'), s') ∧ Touches (fun _ => False) s s' ∧
      (r = .absent ∨ r = .failed) := by
  induction n generalizing i d s dirBlk with
  | zero => exact ⟨.absent, d, s, rfl, .refl _ _, .inl rfl⟩
  | succ n ih =>
    obtain ⟨ret, got, d₁, s₁, run, retimed, quiet, read⟩ := run_scanRound_any map segment failId aligned range dirBlk
    by_cases failed : ret = -1
    · refine ⟨.failed, d₁, s₁, ?_, quiet, .inr rfl⟩
      simp only [scanFrom, DevProg.run_bind, run, failed, if_true, DevProg.run_pure]
    · obtain ⟨low, scanned⟩ := read failed
      have ends₁ := ends.scanned terminated scanned
      obtain ⟨r, d', s', rest, quiet', none⟩ := ih
        (Evolved.retimed (W := fun _ => False) map retimed quiet).1.map (quiet.count ▸ segment)
        (quiet.count ▸ failId) (retimed.size ▸ aligned) (by rw [quiet.quiet, retimed.byte]; exact terminated)
        (show i + 1 < 1048576 by omega) ends₁
      refine ⟨r, d', s', ?_, quiet.trans quiet', none⟩
      simp only [scanFrom, DevProg.run_bind, run, failed, if_false, findEntry_long ends₁ noZero long, rest]

end

/-- Entry `e` has the name and names inode `x`, and so do all others with the name. -/
def NamedAt (es : List (Name × Nat)) (e : Nat) (name : Name) (x : Nat) : Prop :=
  es[e]? = some (name, x) ∧ ∀ y, (name, y) ∈ es → y = x

theorem NamedAt.added {es : List (Name × Nat)} {name : Name} (unbound : ∀ y, (name, y) ∉ es) (x : Nat) :
    NamedAt (es ++ [(name, x)]) es.length name x := by
  refine ⟨List.getElem?_concat_length, fun y member => ?_⟩
  rw [List.mem_append, List.mem_singleton] at member
  exact member.elim (fun old => absurd old (unbound y)) fun new => congrArg Prod.snd new

theorem NamedAt.append {es : List (Name × Nat)} {e x : Nat} {name other : Name} (named : NamedAt es e name x)
    (ne : other ≠ name) (z : Nat) : NamedAt (es ++ [(other, z)]) e name x := by
  refine ⟨?_, fun y member => ?_⟩
  · rw [List.getElem?_append_left (List.getElem?_eq_some_iff.mp named.1).1]
    exact named.1
  · rw [List.mem_append, List.mem_singleton] at member
    exact member.elim (named.2 y) fun new => absurd (congrArg Prod.fst new).symm ne

/-! ## `find` -/

section

variable {L : Layout} {live : Nat → Prop} {a x : Nat} {s s' : Disk} {name : Name}

theorem Populated.run_find_long (state : Populated L s live) (here : live a)
    (table : EntryTable (L.inode s.blocks a) s.blocks) (noZero : ∀ c ∈ name, c ≠ 0) (long : 251 < name.length) :
    ∃ s', (Inode.find L.formatted (L.slot a) name).run s = (none, s') ∧ Touches (fun _ => False) s s' := by
  have isDir : ¬ (L.inode s.blocks a).type ≠ kDirectory := not_not_intro table.type
  have terminated : ∀ e, e < ((L.inode s.blocks a).entries s.blocks).length →
      (entryAt ((L.inode s.blocks a).byte s.blocks) e).1.length ≤ 251 := by
    intro e inside
    refine table.terminated _ ?_
    rw [DiskInode.entries_of_size table.aligned, mem_entriesIn]
    exact ⟨e, inside, rfl⟩
  have blank : BufferEnds fun _ => 0 := fun _ _ => Nat.zero_le _
  obtain ⟨r, d', s', run, quiet, none⟩ := run_scanFrom_long (n := DiskInode.totalBlocks (L.inode s.blocks a).size.toNat)
    noZero long (state.volume.map a here) state.volume.segment state.failId table.aligned terminated
    (show 0 < 1048576 by decide) blank
  refine ⟨s', ?_, quiet⟩
  have search : (scan (L.inode s.blocks a) name).run s = ((r, d'), s') := run
  simp only [Inode.find, DevProg.run_bind, state.run_readInode here, isDir, if_false, search]
  cases none with
  | inl absent =>
    rw [absent]
    rfl
  | inr failed =>
    rw [failed]
    rfl

/-- What `find` answers about a name that fits and that has an entry below `2 ^ 31`. -/
theorem Populated.run_find_fits (state : Populated L s live) (here : live a)
    (table : EntryTable (L.inode s.blocks a) s.blocks) (proper : ProperName name) :
    ∃ r s', (Inode.find L.formatted (L.slot a) name).run s = (r, s') ∧ Touches (fun _ => False) s s' ∧
      ∀ e x, e < 8388608 → NamedAt ((L.inode s.blocks a).entries s.blocks) e name x → r = some (L.slot x) := by
  have isDir : ¬ (L.inode s.blocks a).type ≠ kDirectory := not_not_intro table.type
  obtain ⟨r, d', s', run, -, quiet, exactly⟩ := Sbfs.run_scan_exactly proper (state.volume.map a here)
    state.volume.segment state.failId table.aligned
  simp only [Inode.find, DevProg.run_bind, state.run_readInode here, isDir, if_false, run]
  cases exactly with
  | found _ _ entry =>
    refine ⟨_, s', rfl, quiet, fun e x low named => ?_⟩
    rw [← named.2 _ (List.mem_of_getElem? entry)]
    rfl
  | absent none => exact ⟨_, s', rfl, quiet, fun e x low named => absurd (List.mem_of_getElem? named.1) (none x)⟩
  | failed far =>
    refine ⟨_, s', rfl, quiet, fun e x low named => ?_⟩
    have := far e x named.1
    omega

/-! ## `create` -/

/-- A directory among the live inodes, all of which are marked as taken. -/
structure Receives (L : Layout) (live : Nat → Prop) (a : Nat) (s : Disk) : Prop where
  state : Populated L s live
  here : live a
  table : EntryTable (L.inode s.blocks a) s.blocks
  marked : ∀ j, live j → L.formatted.inodeBitmap.Used s.blocks j

/-- The inode that the next `create` takes is free and lies in the inode area. -/
def NextSlot (L : Layout) (s : Disk) : Prop :=
  ∃ n, (L.formatted.inodeBitmap.freeIds s.blocks).head? = some n ∧ L.SlotId n

/-- What a successful `create` has done. -/
structure EntryAdded (L : Layout) (live : Nat → Prop) (a : Nat) (name : Name) (n : Nat) (s s' : Disk) : Prop where
  receives : Receives L (fun j => live j ∨ j = n) a s'
  slot : L.SlotId n
  fresh : ¬ live n
  entries : (L.inode s'.blocks a).entries s'.blocks =
    (L.inode s.blocks a).entries s.blocks ++ [(name.take kMaxDirNameLength, n)]
  low : ((L.inode s.blocks a).entries s.blocks).length < 8388608

theorem Receives.created (receives : Receives L live a s) (next : NextSlot L s) (noZero : ∀ c ∈ name, c ≠ 0)
    {d₀ : DiskInode} (empty : d₀.Empty) {p : Option Position}
    (run : (Inode.create L.formatted (L.slot a) name d₀).run s = ((.kSuccess, p), s')) :
    ∃ n, p = some (L.slot n) ∧ EntryAdded L live a name n s s' := by
  obtain ⟨state, here, table, marked⟩ := receives
  obtain ⟨n, head, slot⟩ := next
  obtain ⟨r, s₁, run₁, success, -⟩ := state.run_create_outcome here table.type table.aligned empty name
  rw [run] at run₁
  cases run₁
  have small := (success.mp rfl).small
  have aligned := table.aligned
  have some : L.formatted.inodeBitmap.freeIds s.blocks ≠ [] := fun none => by
    rw [none] at head
    cases head
  obtain ⟨r, s₁, run₁, bits, outcome⟩ := state.run_create_any here table.type aligned (by omega) noZero empty marked
    (fun none => absurd none some) fun m first => by
      rw [head] at first
      cases first
      exact slot
  rw [run] at run₁
  cases run₁
  cases outcome with
  | done free state' stored new =>
    rename_i m
    obtain rfl : n = m := Option.some.inj (head.symm.trans free)
    -- the first free bit was not set, so that the inode is new
    have unused : ¬ L.formatted.inodeBitmap.Used s.blocks n := fun used =>
      (Bitmap.used_iff.mp used).2 (List.mem_of_head? head)
    refine ⟨n, rfl, ⟨⟨state', .inl here, ⟨stored.type.trans table.type, ?_, ?_⟩, fun j there => ?_⟩, slot,
      fun old => unused (marked n old), stored.entries, by omega⟩⟩
    · rw [stored.size, stored.entries]
    · rw [stored.entries]
      intro y member
      rcases List.mem_append.mp member with old | new
      · exact table.terminated y old
      · rw [List.mem_singleton.mp new]
        exact List.length_take_le _ _
    · rw [bits]
      cases there with
      | inl old => exact .inl (marked j old)
      | inr is => exact .inr (is ▸ head)

/-- `find` after `create` gets the created inode. -/
def FoundAgain (L : Layout) (a : Nat) (name : Name) (p : Option Position) (s : Disk) : Prop :=
  ((Inode.find L.formatted (L.slot a) name).run s).1 = p

/-- After two calls of `create`, two calls of `find` get the two inodes. -/
def FoundApart (L : Layout) (a : Nat) (name₁ name₂ : Name) (p₁ p₂ : Option Position) (s : Disk) : Prop :=
  let r₁ := (Inode.find L.formatted (L.slot a) name₁).run s
  let r₂ := (Inode.find L.formatted (L.slot a) name₂).run r₁.2
  r₁.1 = p₁ ∧ r₂.1 = p₂ ∧ p₁ ≠ p₂

theorem Receives.quiet (receives : Receives L live a s) (quiet : Touches (fun _ => False) s s') :
    Receives L live a s' := by
  have blocks := quiet.quiet
  constructor
  case state => exact (receives.state.underneath (quiet.mono fun _ => False.elim)).1
  case here => exact receives.here
  case table =>
    rw [blocks]
    exact receives.table
  case marked =>
    rw [blocks]
    exact receives.marked

/-- `find`, whether the name fits or not. -/
theorem Receives.run_find (receives : Receives L live a s) (file : FileName name) :
    ∃ r s', (Inode.find L.formatted (L.slot a) name).run s = (r, s') ∧ Touches (fun _ => False) s s' ∧
      ∀ e x, e < 8388608 →
        (name.length ≤ 251 → NamedAt ((L.inode s.blocks a).entries s.blocks) e name x) →
          (r = some (L.slot x) ↔ name.length ≤ 251) := by
  obtain ⟨state, here, table, -⟩ := receives
  by_cases fits : name.length ≤ 251
  · obtain ⟨r, s', run, quiet, found⟩ := state.run_find_fits here table
      ⟨file.component.nonempty, fits, file.noZero⟩
    exact ⟨r, s', run, quiet, fun e x low named => iff_of_true (found e x low (named fits)) fits⟩
  · obtain ⟨s', run, quiet⟩ := state.run_find_long here table file.noZero (Nat.lt_of_not_le fits)
    exact ⟨none, s', run, quiet, fun e x low named => iff_of_false (fun h => by cases h) fits⟩

end

/-- A created name is found again exactly if it fits into an entry, and two of them are told
apart exactly if both do. -/
theorem created_found_iff (L : Layout) {live : Nat → Prop} {a : Nat} {s : Disk} (receives : Receives L live a s)
    {name₁ : Name} (file₁ : FileName name₁) (unbound₁ : ∀ x, (name₁, x) ∉ (L.inode s.blocks a).entries s.blocks)
    {d₁ : DiskInode} (empty₁ : d₁.Empty) (next₁ : NextSlot L s) {p₁ : Option Position} {s₁ : Disk}
    (created₁ : (Inode.create L.formatted (L.slot a) name₁ d₁).run s = ((.kSuccess, p₁), s₁)) :
    (FoundAgain L a name₁ p₁ s₁ ↔ name₁.length ≤ 251) ∧
      ∀ name₂, FileName name₂ → name₂ ≠ name₁ → (∀ x, (name₂, x) ∉ (L.inode s.blocks a).entries s.blocks) →
        ∀ d₂ : DiskInode, d₂.Empty → NextSlot L s₁ → ∀ p₂ s₂,
          (Inode.create L.formatted (L.slot a) name₂ d₂).run s₁ = ((.kSuccess, p₂), s₂) →
            (FoundApart L a name₁ name₂ p₁ p₂ s₂ ↔ name₁.length ≤ 251 ∧ name₂.length ≤ 251) := by
  obtain ⟨n₁, rfl, entered₁⟩ := receives.created next₁ file₁.noZero empty₁ created₁
  obtain ⟨receives₁, slot₁, -, entries₁, low₁⟩ := entered₁
  have whole : ∀ {name : Name}, name.length ≤ 251 → name.take kMaxDirNameLength = name := fun fits =>
    List.take_of_length_le fits
  constructor
  · obtain ⟨r, s', run, -, found⟩ := receives₁.run_find file₁
    rw [FoundAgain, run]
    refine found _ n₁ low₁ fun fits => ?_
    rw [entries₁, whole fits]
    exact .added unbound₁ n₁
  · intro name₂ file₂ other unbound₂ d₂ empty₂ next₂ p₂ s₂ created₂
    obtain ⟨n₂, rfl, entered₂⟩ := receives₁.created next₂ file₂.noZero empty₂ created₂
    obtain ⟨receives₂, slot₂, fresh₂, entries₂, low₂⟩ := entered₂
    -- the two calls have given different inodes
    have apart : some (L.slot n₁) ≠ some (L.slot n₂) := by
      intro same
      have id := congrArg L.formatted.getDiskInodeId (Option.some.inj same)
      rw [Layout.diskInodeId_slot slot₁, Layout.diskInodeId_slot slot₂] at id
      exact fresh₂ (.inr id.symm)
    rw [entries₁] at entries₂ low₂
    obtain ⟨r₁, s₃, run₁, quiet₁, found₁⟩ := receives₂.run_find file₁
    obtain ⟨r₂, s₄, run₂, -, found₂⟩ := (receives₂.quiet quiet₁).run_find file₂
    rw [quiet₁.quiet, entries₂] at found₂
    rw [entries₂] at found₁
    rw [FoundApart, run₁, run₂]
    by_cases both : name₁.length ≤ 251 ∧ name₂.length ≤ 251
    · obtain ⟨fits₁, fits₂⟩ := both
      rw [whole fits₁, whole fits₂] at found₁ found₂
      have named₁ := NamedAt.added unbound₁ n₁
      have unbound : ∀ y, (name₂, y) ∉ (L.inode s.blocks a).entries s.blocks ++ [(name₁, n₁)] := by
        intro y member
        rw [List.mem_append, List.mem_singleton] at member
        exact member.elim (unbound₂ y) fun new => other (congrArg Prod.fst new)
      refine iff_of_true ⟨(found₁ _ n₁ low₁ fun _ => named₁.append other n₂).mpr fits₁,
        (found₂ _ n₂ ?_ fun _ => .added unbound n₂).mpr fits₂, apart⟩ ⟨fits₁, fits₂⟩
      rwa [List.length_append] at low₂ ⊢
    · -- a name that is cut off is not found, whatever the other entry holds
      refine iff_of_false (fun holds => both ?_) both
      by_cases fits₁ : name₁.length ≤ 251
      · by_cases fits₂ : name₂.length ≤ 251
        · exact ⟨fits₁, fits₂⟩
        · exact ⟨fits₁, (found₂ 0 n₂ (by decide) fun fits => absurd fits fits₂).mp holds.2.1⟩
      · exact absurd ((found₁ 0 n₁ (by decide) fun fits => absurd fits fits₁).mp holds.1) fits₁

/-! ### A name of 252 bytes -/

theorem loneDisk_receives : Receives .default (· = 2) 2 loneDisk where
  state := loneDisk_state.state
  here := rfl
  table := ⟨loneDisk_state.dir.type, loneDisk_state.dir.aligned, fun x member => (loneDisk_state.dir.names x member).fits⟩
  marked := fun j is => (loneDisk_used j).mpr is

theorem loneDisk_next : NextSlot .default loneDisk := ⟨3, loneDisk_head, by decide, by decide⟩

theorem loneDisk_creates (name : Name) : ∃ p s',
    (Inode.create Layout.default.formatted (Layout.default.slot 2) name emptyFile).run loneDisk =
      ((.kSuccess, p), s') := by
  obtain ⟨⟨ret, p⟩, s', run, success, -⟩ := loneDisk_state.state.run_create_outcome rfl loneDisk_state.dir.type
    loneDisk_state.dir.aligned emptyFile_empty name
  have room : CreateRoom .default 2 emptyFile loneDisk := by
    constructor
    case small =>
      rw [loneDisk_inode]
      decide
    case blocks =>
      rw [loneDisk_inode]
      exact loneDisk_free
    case slot =>
      rw [newInodeId, loneDisk_head]
      exact loneDisk_state.state.onDevice ⟨by decide, by decide⟩
  exact ⟨p, s', by rw [run, show ret = .kSuccess from success.mpr room]⟩

theorem created_found_iff_lone : ∃ p s',
    (Inode.create Layout.default.formatted (Layout.default.slot 2) [97] emptyFile).run loneDisk =
      ((.kSuccess, p), s') ∧ FoundAgain .default 2 [97] p s' := by
  obtain ⟨p, s', run⟩ := loneDisk_creates [97]
  have file : FileName [97] := ⟨⟨by decide, by decide⟩, by simp, by decide⟩
  have unbound : ∀ x, ([97], x) ∉ (Layout.default.inode loneDisk.blocks 2).entries loneDisk.blocks := by
    rw [loneDisk_entries]
    exact fun x => List.not_mem_nil
  exact ⟨p, s', run, (created_found_iff .default loneDisk_receives file unbound emptyFile_empty loneDisk_next run).1.mpr
    (by decide)⟩

/-- A name of one byte more than an entry holds. -/
def cutName : Name := List.replicate 252 97

theorem cutName_length : cutName.length = 252 := List.length_replicate

theorem cutName_file : FileName cutName where
  component := ⟨List.cons_ne_nil _ _, fun member => absurd (List.eq_of_mem_replicate member) (by decide)⟩
  noZero := fun c member => by
    rw [List.eq_of_mem_replicate member]
    decide
  fits := by
    rw [cutName_length]
    decide

/-- A name that has been created is not found. -/
theorem created_name_lost :
    ¬ ∀ (L : Layout) (live : Nat → Prop) (a : Nat) (s : Disk), Receives L live a s → ∀ name, FileName name →
      (∀ x, (name, x) ∉ (L.inode s.blocks a).entries s.blocks) → ∀ d₀ : DiskInode, d₀.Empty → NextSlot L s →
        ∀ p s', (Inode.create L.formatted (L.slot a) name d₀).run s = ((.kSuccess, p), s') →
          FoundAgain L a name p s' := by
  intro always
  obtain ⟨p, s', run⟩ := loneDisk_creates cutName
  have found := always .default _ 2 loneDisk loneDisk_receives cutName cutName_file
    (by rw [loneDisk_entries]; exact fun x => List.not_mem_nil) emptyFile emptyFile_empty loneDisk_next p s' run
  obtain ⟨n, rfl, entered⟩ := loneDisk_receives.created loneDisk_next cutName_file.noZero emptyFile_empty run
  obtain ⟨s'', lost, -⟩ := entered.receives.state.run_find_long entered.receives.here entered.receives.table
    cutName_file.noZero (by rw [cutName_length]; decide)
  rw [FoundAgain, lost] at found
  cases found

end Sbfs
