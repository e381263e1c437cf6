import SceneScript.Output.FileStore

/-!
# Files that are written

What is written at a path is read there (`read_write`), and can be written again (`write_write`).
For a write puts one file in one place (`write_eq_ok_iff`) and makes no directories but those around
it, which are on the way there already, so the path leads where it led (`walk_put`, `target_put`).

Two stores with the same files and directories cannot be told apart by reading (`Alike.read_eq`). A
write leaves all directories and all other files (`isDirectory_write`, `find?_put`), so it makes a
difference unless it writes what was there (`alike_write_iff`).
-/

namespace SceneScript

namespace FileStore

variable {s s' : FileStore} {start route other : Route} {slash : Bool} {path : List Char}
  {content : Content} {names : List (List Char)}

/-! ## Files -/

/-- A file stands where it was put, and the other ones are as they were. -/
theorem find?_put (s : FileStore) (route : Route) (content : Content) (other : Route) :
    (s.put route content).find? other = if other = route then some content else s.find? other := by
  split
  · next h => rw [h, find?_put_self]
  next hne =>
  rw [put, find?, find?]
  split
  · -- the files that change are not the one that is looked for
    have hkey : ((fun f : Route × Content => f.1 == other) ∘
        fun f => if f.1 == route then (route, content) else f) = fun f => f.1 == other := by
      funext f
      rw [Function.comp_apply]
      split
      · next hf => rw [beq_iff_eq.1 hf]
      · rfl
    rw [List.find?_map, hkey]
    cases hfind : s.files.find? fun f => f.1 == other with
    | none => rfl
    | some file =>
      have hfile : file.1 = other := by simpa using List.find?_some hfind
      rw [Option.map_some, if_neg (by rw [hfile, beq_iff_eq]; exact hne)]
  · rw [List.find?_append, List.find?_singleton, if_neg (by rw [beq_iff_eq]; exact Ne.symm hne),
      Option.or_none]

/-! ## Directories -/

/-- The routes with files are those that had one, and the one where a file was put. -/
theorem any_put (s : FileStore) (route : Route) (content : Content) (f : Route → Bool) :
    ((s.put route content).files.any fun file => f file.1) =
      ((s.files.any fun file => f file.1) || f route) := by
  rw [put]
  split
  · next h =>
    -- one of the routes is this one, so asking of it once more changes nothing
    obtain ⟨file, hmem, hroute⟩ := List.any_eq_true.1 h
    have hself (g : Route × Content) :
        f (if g.1 == route then (route, content) else g).1 = f g.1 := by
      split
      · next hg => rw [beq_iff_eq.1 hg]
      · rfl
    rw [List.any_map]
    simp only [Function.comp_def, hself]
    cases hf : f route with
    | false => exact (Bool.or_false _).symm
    | true =>
      rw [Bool.or_true]
      exact List.any_eq_true.2 ⟨file, hmem, (congrArg f (beq_iff_eq.1 hroute)).trans hf⟩
  · rw [List.any_append, List.any_cons, List.any_nil, Bool.or_false]

/-- A file makes directories of the routes before it, and of no others. -/
theorem isDirectory_put (s : FileStore) (route : Route) (content : Content) (other : Route) :
    (s.put route content).isDirectory other =
      (s.isDirectory other || other.length < route.length && other.isPrefixOf route) := by
  rw [isDirectory, isDirectory,
    any_put s route content fun file => other.length < file.length && other.isPrefixOf file,
    ← Bool.or_assoc]
  rfl

theorem isDirectory_put_self (s : FileStore) (route : Route) (content : Content) :
    (s.put route content).isDirectory route = s.isDirectory route := by
  rw [isDirectory_put, decide_eq_false (Nat.lt_irrefl _), Bool.false_and, Bool.or_false]

/-! ## Ways -/

/-- All directories on the way along a route are there, the last one too. -/
def LeadsAlong (s : FileStore) (route : Route) : Prop :=
  ∀ before, before <+: route → s.isDirectory before = true

/-- The directories around a store are there. -/
theorem leadsAlong_outside (s : FileStore) (h : route.all (· == Path.parent) = true) :
    s.LeadsAlong route := by
  intro before hbefore
  have hall : before.all (· == Path.parent) = true :=
    List.all_eq_true.2 fun name hmem => List.all_eq_true.1 h name (hbefore.subset hmem)
  rw [isDirectory, hall, Bool.true_or, Bool.true_or]

/-- A step out of a directory leads to one. -/
theorem LeadsAlong.outward (h : s.LeadsAlong route) : s.LeadsAlong (outward route) := by
  rw [FileStore.outward]
  split
  · next hall =>
    refine leadsAlong_outside s ?_
    rw [List.all_append, hall]
    rfl
  · exact fun before hbefore => h before (hbefore.trans (List.dropLast_prefix route))

/-- Names lead along directories. -/
theorem LeadsAlong.walk (hstart : s.LeadsAlong start) (h : s.walk start names = .ok other) :
    s.LeadsAlong other := by
  induction names generalizing start with
  | nil =>
    cases h
    exact hstart
  | cons name names ih =>
    rw [FileStore.walk] at h
    split at h
    · exact ih hstart h
    split at h
    · exact ih hstart.outward h
    split at h
    · cases h
    dsimp only at h
    split at h
    · next hdir =>
      refine ih (fun before hbefore => ?_) h
      rcases List.prefix_concat_iff.1 hbefore with rfl | hbefore
      · exact hdir
      · exact hstart before hbefore
    · split at h <;> cases h

/-- Names lead to the same directory when there is a file more. -/
theorem walk_put (h : s.walk start names = .ok other) (route : Route) (content : Content) :
    (s.put route content).walk start names = .ok other := by
  induction names generalizing start with
  | nil => exact h
  | cons name names ih =>
    rw [walk] at h ⊢
    split
    · next hidle =>
      rw [if_pos hidle] at h
      exact ih h
    next hidle =>
    rw [if_neg hidle] at h
    split
    · next hparent =>
      rw [if_pos hparent] at h
      exact ih h
    next hparent =>
    rw [if_neg hparent] at h
    split
    · next hlong =>
      rw [if_pos hlong] at h
      cases h
    next hlong =>
    rw [if_neg hlong] at h
    dsimp only at h ⊢
    cases hdir : s.isDirectory (start ++ [name]) with
    | true =>
      rw [hdir, if_pos rfl] at h
      rw [isDirectory_put, hdir, Bool.true_or, if_pos rfl]
      exact ih h
    | false =>
      rw [hdir, if_neg Bool.false_ne_true] at h
      split at h <;> cases h

/-- Where the names of a path start. -/
def startOf (path : List Char) : Route := if path.head? == some '/' then [Path.parent] else []

/-- A path leads to a name in the directory that the names before lead to. -/
theorem target_eq_name_iff :
    s.target path = .ok (.name route slash) ↔
      path.contains '\x00' = false ∧ path.isEmpty = false ∧ byteCount path < pathLimit ∧
        ∃ last before directory,
          (Path.names path).reverse.dropWhile List.isEmpty = last :: before ∧
          s.walk (startOf path) before.reverse = .ok directory ∧
          (Path.isIdle last || last = Path.parent) = false ∧
          s.isDirectory (directory ++ [last]) = false ∧ directory ++ [last] = route ∧
          ((Path.names path).reverse.head? == some []) = slash := by
  rw [target]
  by_cases hzero : path.contains '\x00' = true
  · rw [if_pos hzero, hzero]
    exact ⟨nofun, nofun⟩
  rw [if_neg hzero]
  by_cases hempty : path.isEmpty = true
  · rw [if_pos hempty, hempty]
    exact ⟨nofun, nofun⟩
  rw [if_neg hempty]
  by_cases hlong : pathLimit ≤ byteCount path
  · rw [if_pos hlong]
    exact ⟨nofun, fun h => absurd h.2.2.1 (Nat.not_lt.2 hlong)⟩
  rw [if_neg hlong]
  rw [Bool.not_eq_true] at hzero hempty
  simp only [hzero, hempty, Nat.not_le.1 hlong, true_and]
  cases hnames : (Path.names path).reverse.dropWhile List.isEmpty with
  | nil => exact ⟨nofun, nofun⟩
  | cons last before =>
    change (s.walk (startOf path) before.reverse >>= _) = _ ↔ _
    cases hwalk : s.walk (startOf path) before.reverse with
    | error e =>
      refine ⟨nofun, ?_⟩
      rintro ⟨_, _, _, heq, hw, -⟩
      cases heq
      rw [hwalk] at hw
      cases hw
    | ok directory =>
      change (if _ then _ else if _ then _ else _) = _ ↔ _
      constructor
      · intro h
        split at h
        · cases h
        next hlast =>
        split at h
        · cases h
        next hdir =>
        rw [Bool.not_eq_true] at hlast hdir
        cases h
        exact ⟨last, before, directory, rfl, hwalk, hlast, hdir, rfl, rfl⟩
      · rintro ⟨_, _, _, heq, hw, hlast, hdir, rfl, rfl⟩
        cases heq
        rw [hwalk] at hw
        cases hw
        rw [if_neg (hlast ▸ Bool.false_ne_true), if_neg (hdir ▸ Bool.false_ne_true)]
        rfl

/-- A path that leads to a file leads there when it is written. -/
theorem target_put (h : s.target path = .ok (.name route slash)) (content : Content) :
    (s.put route content).target path = .ok (.name route slash) := by
  obtain ⟨hzero, hempty, hlong, last, before, directory, hnames, hwalk, hlast, hdir, rfl, hslash⟩ :=
    target_eq_name_iff.1 h
  exact target_eq_name_iff.2 ⟨hzero, hempty, hlong, last, before, directory, hnames,
    walk_put hwalk _ content, hlast, (isDirectory_put_self ..).trans hdir, rfl, hslash⟩

/-- The directories on the way to the place that a path leads to are there. -/
theorem isDirectory_of_target {before : Route} (h : s.target path = .ok (.name route slash))
    (hbefore : before <+: route) (hshort : before.length < route.length) :
    s.isDirectory before = true := by
  obtain ⟨-, -, -, last, names, directory, -, hwalk, -, -, rfl, -⟩ := target_eq_name_iff.1 h
  have hstart : s.LeadsAlong (startOf path) := by
    refine leadsAlong_outside s ?_
    rw [startOf]
    split <;> rfl
  rcases List.prefix_concat_iff.1 hbefore with rfl | hbefore
  · exact absurd hshort (Nat.lt_irrefl _)
  · exact hstart.walk hwalk before hbefore

/-! ## Writing and reading -/

/-- A write puts a file where its path leads. -/
theorem write_eq_ok_iff :
    s.write path content = .ok s' ↔
      ∃ route, s.target path = .ok (.name route false) ∧ endsTooLong route = false ∧
        s' = s.put route content := by
  rw [write]
  cases ht : s.target path with
  | error e => exact ⟨nofun, fun ⟨_, h, _⟩ => nomatch h⟩
  | ok target =>
    rcases target with _ | ⟨route, _ | _⟩
    · exact ⟨nofun, fun ⟨_, h, _⟩ => nomatch h⟩
    · change (if _ then _ else _) = _ ↔ _
      constructor
      · intro h
        split at h
        · cases h
        next hlong =>
        cases h
        exact ⟨route, rfl, Bool.not_eq_true _ ▸ hlong, rfl⟩
      · rintro ⟨_, heq, hlong, rfl⟩
        cases heq
        rw [if_neg (hlong ▸ Bool.false_ne_true)]
        rfl
    · exact ⟨nofun, fun ⟨_, h, _⟩ => nomatch h⟩

/-- What is written at a path is read there. -/
theorem read_write (h : s.write path content = .ok s') : s'.read path = .ok content := by
  obtain ⟨route, ht, hl, rfl⟩ := write_eq_ok_iff.1 h
  rw [read, target_put ht content]
  change (if _ then _ else _) = _
  rw [if_neg (hl ▸ Bool.false_ne_true)]
  rw [find?_put_self]
  rfl

/-- What has been written can be written again. -/
theorem write_write (h : s.write path content = .ok s') (later : Content) :
    ∃ s'', s'.write path later = .ok s'' := by
  obtain ⟨route, ht, hl, rfl⟩ := write_eq_ok_iff.1 h
  exact ⟨_, write_eq_ok_iff.2 ⟨route, target_put ht content, hl, rfl⟩⟩

/-- A write makes no directory. -/
theorem isDirectory_write (h : s.write path content = .ok s') (other : Route) :
    s'.isDirectory other = s.isDirectory other := by
  obtain ⟨route, ht, -, rfl⟩ := write_eq_ok_iff.1 h
  rw [isDirectory_put]
  cases hway : decide (other.length < route.length) && other.isPrefixOf route with
  | false => exact Bool.or_false _
  | true =>
    obtain ⟨hshort, hbefore⟩ := (Bool.and_eq_true_iff ..).1 hway
    rw [isDirectory_of_target ht (List.isPrefixOf_iff_prefix.1 hbefore) (of_decide_eq_true hshort)]
    rfl

/-- A file is read where its path leads. -/
theorem read_eq_ok_iff :
    s.read path = .ok content ↔
      ∃ route, s.target path = .ok (.name route false) ∧ endsTooLong route = false ∧
        s.find? route = some content := by
  rw [read]
  cases ht : s.target path with
  | error e => exact ⟨nofun, fun ⟨_, h, _⟩ => nomatch h⟩
  | ok target =>
    rcases target with _ | ⟨route, slash⟩
    · exact ⟨nofun, fun ⟨_, h, _⟩ => nomatch h⟩
    change (if _ then _ else _) = _ ↔ _
    constructor
    · intro h
      split at h
      · cases h
      next hlong =>
      cases hfind : s.find? route with
      | none =>
        rw [hfind] at h
        cases h
      | some found =>
        rw [hfind] at h
        cases slash with
        | true => cases h
        | false =>
          cases h
          exact ⟨route, rfl, Bool.not_eq_true _ ▸ hlong, hfind⟩
    · rintro ⟨_, heq, hlong, hfind⟩
      cases heq
      rw [if_neg (hlong ▸ Bool.false_ne_true), hfind]
      rfl

/-! ## Stores that are alike -/

/-- The same files and the same directories are there. -/
structure Alike (s s' : FileStore) : Prop where
  find? : ∀ route, s.find? route = s'.find? route
  isDirectory : ∀ route, s.isDirectory route = s'.isDirectory route

/-- Names lead to the same in stores that are alike. -/
theorem Alike.walk_eq (h : s.Alike s') (start : Route) (names : List (List Char)) :
    s.walk start names = s'.walk start names := by
  induction names generalizing start with
  | nil => rfl
  | cons name names ih =>
    rw [FileStore.walk, FileStore.walk]
    simp only [ih, h.find?, h.isDirectory]

/-- Paths lead to the same in stores that are alike. -/
theorem Alike.target_eq (h : s.Alike s') (path : List Char) : s.target path = s'.target path := by
  simp only [FileStore.target, h.walk_eq, h.isDirectory]

/-- Stores that are alike cannot be told apart by reading. -/
theorem Alike.read_eq (h : s.Alike s') (path : List Char) : s.read path = s'.read path := by
  simp only [FileStore.read, h.target_eq, h.find?]

/-- A write makes a difference unless it writes what was there. -/
theorem alike_write_iff (h : s.write path content = .ok s') :
    s.Alike s' ↔ s.read path = .ok content := by
  constructor
  · intro halike
    rw [halike.read_eq, read_write h]
  · intro hread
    refine ⟨fun other => ?_, fun other => (isDirectory_write h other).symm⟩
    obtain ⟨route, ht, -, rfl⟩ := write_eq_ok_iff.1 h
    obtain ⟨_, ht', -, hfind⟩ := read_eq_ok_iff.1 hread
    cases ht.symm.trans ht'
    rw [find?_put]
    split
    · next heq => rw [heq, hfind]
    · rfl

end FileStore

end SceneScript
