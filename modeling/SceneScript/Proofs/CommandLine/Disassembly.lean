import SceneScript.CommandLine
import SceneScript.Proofs.Bytecode.Canonical
import SceneScript.Proofs.Script.Listing

/-!
# Listings tell programs apart

The keyword of a listing ends at its first space, and it tells how many fields there are. Where all
fields are words, each of them ends at the next space, and what is left is the profile
(`Operation.spaced_append_inj`). A path is all that there is behind its keyword, and the name of a
profile goes up to the last bracket that opens, since no number has one. So no two operations are
listed alike, whatever their paths and names are (`Operation.listing_injective`).

A line ends where a listing ends unless a path holds the end of a line itself, so in a printed
program the lines are the listings (`CommandLine.lines_inj`) and with them the operations are told
(`CommandLine.disassembly_tells_operations`).
-/

namespace SceneScript

/-! ## Cutting texts -/

namespace Text

variable {s s' t t' : List Char} {c : Char}

/-- Nothing follows, or the character does. -/
def EndsAt (c : Char) (t : List Char) : Prop := ∀ d ∈ t.head?, d = c

theorem endsAt_nil : EndsAt c [] := by
  intro d hd
  cases hd

theorem endsAt_cons : EndsAt c (c :: t) := by
  rintro d ⟨⟩
  rfl

/-- A text without a character is what stands before the first one. -/
theorem append_inj_of_endsAt (hs : c ∉ s) (hs' : c ∉ s') (ht : EndsAt c t) (ht' : EndsAt c t')
    (h : s ++ t = s' ++ t') : s = s' ∧ t = t' := by
  have front {s t : List Char} (hs : c ∉ s) (ht : EndsAt c t) :
      (s ++ t).takeWhile (· != c) = s := by
    rw [List.takeWhile_append_of_pos fun d hd => bne_iff_ne.2 (ne_of_mem_of_not_mem hd hs)]
    cases t with
    | nil => simp
    | cons d t => simp [ht d rfl]
  have heq : s = s' := by
    rw [← front hs ht, h, front hs' ht']
  subst heq
  exact ⟨rfl, List.append_cancel_left h⟩

/-- A text without a character is what stands behind the last one. -/
theorem append_cons_inj_last (ht : c ∉ t) (ht' : c ∉ t') (h : s ++ c :: t = s' ++ c :: t') :
    s = s' ∧ t = t' := by
  have hreverse : t.reverse ++ c :: s.reverse = t'.reverse ++ c :: s'.reverse := by
    simpa using congrArg List.reverse h
  obtain ⟨hbehind, hbefore⟩ := append_inj_of_endsAt (mt List.mem_reverse.1 ht)
    (mt List.mem_reverse.1 ht') endsAt_cons endsAt_cons hreverse
  exact ⟨List.reverse_inj.1 (List.cons.inj hbefore).2, List.reverse_inj.1 hbehind⟩

end Text

open Decimal (Layout)
open Text (EndsAt IsWord isBlank)

namespace Operation

/-! ## Fields between spaces -/

section Fields

variable {fields fields' : List (List Char)} {rest rest' : List Char}

theorem endsAt_spaced (fields : List (List Char)) (h : EndsAt ' ' rest) :
    EndsAt ' ' (spaced fields ++ rest) := by
  cases fields with
  | nil => exact h
  | cons => exact Text.endsAt_cons

/-- As many fields without spaces are told from where the spaces are. -/
theorem spaced_append_inj (hlength : fields.length = fields'.length)
    (hfields : ∀ field ∈ fields, ' ' ∉ field) (hfields' : ∀ field ∈ fields', ' ' ∉ field)
    (hrest : EndsAt ' ' rest) (hrest' : EndsAt ' ' rest')
    (h : spaced fields ++ rest = spaced fields' ++ rest') : fields = fields' ∧ rest = rest' := by
  induction fields generalizing fields' with
  | nil =>
    obtain rfl := List.eq_nil_of_length_eq_zero hlength.symm
    exact ⟨rfl, h⟩
  | cons field fields ih =>
    obtain ⟨field', fields', rfl⟩ := List.exists_cons_of_length_eq_add_one hlength.symm
    obtain ⟨hfirst, hothers⟩ := List.forall_mem_cons.1 hfields
    obtain ⟨hfirst', hothers'⟩ := List.forall_mem_cons.1 hfields'
    have hcut : field ++ (spaced fields ++ rest) = field' ++ (spaced fields' ++ rest') := by
      simpa [spaced] using h
    obtain ⟨rfl, hbehind⟩ := Text.append_inj_of_endsAt hfirst hfirst' (endsAt_spaced fields hrest)
      (endsAt_spaced fields' hrest') hcut
    obtain ⟨rfl, heq⟩ := ih (Nat.succ.inj hlength) hothers hothers' hbehind
    exact ⟨rfl, heq⟩

end Fields

/-- Numbers are told from their texts. -/
theorem map_text_injective : Function.Injective (List.map Layout.plain.text) :=
  List.map_injective_iff.2 Decimal.text_injective

/-! ## Profiles -/

/-- The words that a profile is listed with. -/
def profileFields (k : Reflectance) : List (List Char) :=
  "[ka".toList :: k.ambient.toList.map Layout.plain.text ++
    "kd".toList :: k.diffuse.toList.map Layout.plain.text ++
    "ks".toList :: k.specular.toList.map Layout.plain.text

variable {op op' : Operation} {k k' : Reflectance}

theorem profileListing_eq (k : Reflectance) :
    profileListing k = spaced (profileFields k) ++ [']'] := by
  have three_lists (u v w : List Char) (a b c : List (List Char)) :
      spaced (u :: a ++ v :: b ++ w :: c) =
        ' ' :: u ++ spaced a ++ ' ' :: v ++ spaced b ++ ' ' :: w ++ spaced c := by
    simp [spaced]
  have hka : " [ka".toList = ' ' :: "[ka".toList := by decide
  have hkd : " kd".toList = ' ' :: "kd".toList := by decide
  have hks : " ks".toList = ' ' :: "ks".toList := by decide
  unfold profileListing profileFields
  rw [three_lists, hka, hkd, hks]

theorem isWord_of_mem_profileFields : ∀ field ∈ profileFields k, IsWord field := by
  have name {w : List Char} (hne : w ≠ []) (h : w.all (fun c => !isBlank c) = true)
      {fields : List (List Char)} (hfields : ∀ field ∈ fields, IsWord field) :
      ∀ field ∈ w :: fields, IsWord field :=
    List.forall_mem_cons.2 ⟨Text.isWord_of_all hne h, hfields⟩
  refine List.forall_mem_append.2 ⟨List.forall_mem_append.2 ⟨?_, ?_⟩, ?_⟩
  all_goals exact name (by decide) (by decide) isWord_of_mem_texts

theorem profileListing_injective : Function.Injective profileListing := by
  intro k k' h
  rw [profileListing_eq, profileListing_eq] at h
  have hspaced := List.append_cancel_right h
  rw [← List.append_nil (spaced (profileFields k)), ← List.append_nil (spaced (profileFields k'))]
    at hspaced
  have hlength : (profileFields k).length = (profileFields k').length := rfl
  have hspace (k : Reflectance) : ∀ field ∈ profileFields k, ' ' ∉ field :=
    not_mem_of_isWord (by decide) isWord_of_mem_profileFields
  have hfields := (spaced_append_inj hlength (hspace k) (hspace k') Text.endsAt_nil
    Text.endsAt_nil hspaced).1
  obtain ⟨⟨a, b, c⟩, ⟨d, e, f⟩, ⟨g, i, j⟩⟩ := k
  obtain ⟨⟨a', b', c'⟩, ⟨d', e', f'⟩, ⟨g', i', j'⟩⟩ := k'
  simpa [profileFields, Vec3.toList, Decimal.text_injective.eq_iff, and_assoc] using hfields

/-- The profile of an operation at the end of its listing, if it brings one along. -/
def profileEnd (profile : Option Reflectance) : List Char := (profile.map profileListing).getD []

theorem profileListing_head? (k : Reflectance) : (profileListing k).head? = some ' ' := by
  rw [profileListing_eq]
  rfl

theorem endsAt_profileEnd (profile : Option Reflectance) : EndsAt ' ' (profileEnd profile) := by
  cases profile with
  | none => exact Text.endsAt_nil
  | some k =>
    intro c hc
    rw [profileEnd, Option.map_some, Option.getD_some, profileListing_head?] at hc
    exact (Option.some.inj hc).symm

theorem profileEnd_injective : Function.Injective profileEnd := by
  have hne (k : Reflectance) : profileListing k ≠ [] := by
    intro h
    have hhead := profileListing_head? k
    rw [h] at hhead
    cases hhead
  intro profile profile' h
  cases profile <;> cases profile'
  · rfl
  · exact absurd h.symm (hne _)
  · exact absurd h (hne _)
  · exact congrArg some (profileListing_injective h)

/-- No number is written with a bracket. -/
theorem bracket_not_mem_text (x : Float) : '[' ∉ Layout.plain.text x := by
  intro h
  rcases Decimal.isDigit_or_mem_of_mem_text x '[' h with hdigit | hmem
  · exact absurd hdigit (by decide)
  · simp at hmem

/-- A profile is listed with one bracket that opens, and this stands in front. -/
theorem exists_profileListing_eq (k : Reflectance) :
    ∃ inside, profileListing k = ' ' :: '[' :: inside ∧ '[' ∉ inside := by
  have htexts (v : Vec3 Float) : ∀ field ∈ v.toList.map Layout.plain.text, '[' ∉ field :=
    List.forall_mem_map.2 fun x _ => bracket_not_mem_text x
  have hname : "[ka".toList = '[' :: "ka".toList := by decide
  refine ⟨"ka".toList ++ spaced (k.ambient.toList.map Layout.plain.text ++
    "kd".toList :: k.diffuse.toList.map Layout.plain.text ++
    "ks".toList :: k.specular.toList.map Layout.plain.text) ++ [']'], ?_, ?_⟩
  · rw [profileListing_eq, profileFields, hname]
    rfl
  · have hkd : '[' ∉ "kd".toList := by decide
    have hks : '[' ∉ "ks".toList := by decide
    have hfields := not_mem_spaced (by decide) (List.forall_mem_append.2
      ⟨List.forall_mem_append.2 ⟨htexts k.ambient, List.forall_mem_cons.2 ⟨hkd, htexts k.diffuse⟩⟩,
        List.forall_mem_cons.2 ⟨hks, htexts k.specular⟩⟩)
    simp only [List.mem_append, not_or]
    exact ⟨⟨by decide, hfields⟩, by decide⟩

/-! ## Operations -/

theorem listing_eq (op : Operation) :
    op.listing = op.keyword.text.toList ++ (spaced op.fields ++ profileEnd op.profile?) := by
  rw [listing, List.append_assoc]
  rfl

/-- An operation is its keyword, its label, its numbers and its profile. -/
theorem eq_of_parts (hkeyword : op.keyword = op'.keyword) (hlabel : op.label? = op'.label?)
    (hnumbers : op.numbers = op'.numbers) (hprofile : op.profile? = op'.profile?) : op = op' := by
  have hvector {a b : Vec3 Float} : a = b ↔ a.x = b.x ∧ a.y = b.y ∧ a.z = b.z := by
    rw [← Vec3.mk.injEq]
  have hpoint {a b : Vec2 Float} : a = b ↔ a.x = b.x ∧ a.y = b.y := by
    rw [← Vec2.mk.injEq]
  have hletter : Function.Injective Axis.letter := by
    intro a b h
    rw [← Option.some_inj, ← Axis.ofChar?_letter, h, Axis.ofChar?_letter]
  cases op <;> cases op'
  all_goals first
    | cases hkeyword; done
    | simp_all [label?, numbers, profile?, Vec3.toList, hletter.eq_iff, String.toList_inj]

/-- The keyword of a listing is what stands before its first space. -/
theorem keyword_eq_of_listing (h : op.listing = op'.listing) : op.keyword = op'.keyword ∧
    spaced op.fields ++ profileEnd op.profile? = spaced op'.fields ++ profileEnd op'.profile? := by
  have hspace (op : Operation) : ' ' ∉ op.keyword.text.toList :=
    op.keyword.isWord_text.not_mem (by decide)
  rw [listing_eq, listing_eq] at h
  obtain ⟨htext, hrest⟩ := Text.append_inj_of_endsAt (hspace op) (hspace op')
    (endsAt_spaced _ (endsAt_profileEnd _)) (endsAt_spaced _ (endsAt_profileEnd _)) h
  refine ⟨?_, hrest⟩
  rw [← Option.some_inj, ← Keyword.ofText?_text, String.toList_inj.1 htext, Keyword.ofText?_text]

/-- Only paths and the names of profiles are other than words. -/
theorem isWord_of_mem_fields (hsave : op.keyword ≠ .save) (hconstants : op.keyword ≠ .constants) :
    ∀ field ∈ op.fields, IsWord field := by
  cases op with
  | push | pop | clear | display => exact nofun
  | save => exact absurd rfl hsave
  | constants => exact absurd rfl hconstants
  | rotate axis => exact List.forall_mem_cons.2 ⟨isWord_letter axis, isWord_of_mem_texts⟩
  | _ => exact isWord_of_mem_texts

/-- The keyword tells how many labels and how many numbers there are. -/
theorem length_eq_of_keyword (h : op.keyword = op'.keyword) :
    op.label?.toList.length = op'.label?.toList.length ∧
      op.numbers.length = op'.numbers.length := by
  cases op <;> cases op' <;> first
    | cases h; done
    | exact ⟨rfl, rfl⟩

/-- Where all fields are words, the spaces tell them. -/
theorem eq_of_listing_of_words (hkeyword : op.keyword = op'.keyword)
    (hfields : ∀ field ∈ op.fields, IsWord field) (hfields' : ∀ field ∈ op'.fields, IsWord field)
    (h : spaced op.fields ++ profileEnd op.profile? =
      spaced op'.fields ++ profileEnd op'.profile?) : op = op' := by
  obtain ⟨hlabels, hnumbers⟩ := length_eq_of_keyword hkeyword
  have hlength : op.fields.length = op'.fields.length := by
    rw [fields, fields, List.length_append, List.length_append, List.length_map, List.length_map,
      hlabels, hnumbers]
  have hspace : isBlank ' ' = true := by decide
  obtain ⟨hsame, hprofile⟩ := spaced_append_inj hlength (not_mem_of_isWord hspace hfields)
    (not_mem_of_isWord hspace hfields') (endsAt_profileEnd _) (endsAt_profileEnd _) h
  obtain ⟨hlabel, hnumber⟩ := List.append_inj hsame hlabels
  refine eq_of_parts hkeyword ?_ (map_text_injective hnumber) (profileEnd_injective hprofile)
  simpa using congrArg List.head? hlabel

theorem exists_path_of_keyword (h : op.keyword = .save) : ∃ path, op = save path := by
  cases op <;> first
    | exact ⟨_, rfl⟩
    | cases h

theorem exists_name_of_keyword (h : op.keyword = .constants) : ∃ name k, op = constants name k := by
  cases op <;> first
    | exact ⟨_, _, rfl⟩
    | cases h

/-- No two operations are listed alike. -/
theorem listing_injective : Function.Injective listing := by
  intro op op' h
  obtain ⟨hkeyword, hrest⟩ := keyword_eq_of_listing h
  by_cases hsave : op.keyword = .save
  · -- the path is all that follows
    obtain ⟨path, rfl⟩ := exists_path_of_keyword hsave
    obtain ⟨path', rfl⟩ := exists_path_of_keyword (hkeyword ▸ hsave)
    simpa [fields, label?, numbers, spaced, profileEnd, profile?, String.toList_inj] using hrest
  by_cases hconstants : op.keyword = .constants
  · -- the name goes up to the last bracket that opens
    obtain ⟨name, k, rfl⟩ := exists_name_of_keyword hconstants
    obtain ⟨name', k', rfl⟩ := exists_name_of_keyword (hkeyword ▸ hconstants)
    obtain ⟨inside, hk, hinside⟩ := exists_profileListing_eq k
    obtain ⟨inside', hk', hinside'⟩ := exists_profileListing_eq k'
    have hcut : (name.toList ++ [' ']) ++ '[' :: inside =
        (name'.toList ++ [' ']) ++ '[' :: inside' := by
      simpa [fields, label?, numbers, spaced, profileEnd, profile?, hk, hk'] using hrest
    obtain ⟨hname, rfl⟩ := Text.append_cons_inj_last hinside hinside' hcut
    rw [String.toList_inj.1 (List.append_cancel_right hname),
      profileListing_injective (hk.trans hk'.symm)]
  exact eq_of_listing_of_words hkeyword (isWord_of_mem_fields hsave hconstants)
    (isWord_of_mem_fields (hkeyword ▸ hsave) (hkeyword ▸ hconstants)) hrest

/-! ## Lines -/

/-- A listing is one line if its label is. -/
theorem newline_not_mem_listing (h : ∀ label ∈ op.label?, '\n' ∉ label) : '\n' ∉ op.listing := by
  have hnewline : isBlank '\n' = true := by decide
  have hprofile (profile : Option Reflectance) : '\n' ∉ profileEnd profile := by
    cases profile with
    | none => exact List.not_mem_nil
    | some k =>
      have hend := not_mem_spaced (by decide)
        (not_mem_of_isWord hnewline (isWord_of_mem_profileFields (k := k)))
      rw [profileEnd, Option.map_some, Option.getD_some, profileListing_eq]
      simpa using hend
  have hfields : ∀ field ∈ op.fields, '\n' ∉ field :=
    List.forall_mem_append.2 ⟨by simpa using h, not_mem_of_isWord hnewline isWord_of_mem_texts⟩
  rw [listing_eq, List.mem_append, List.mem_append, not_or, not_or]
  exact ⟨op.keyword.isWord_text.not_mem hnewline, not_mem_spaced (by decide) hfields, hprofile _⟩

end Operation

namespace CommandLine

/-- Lines are told from where they end. -/
theorem lines_inj {ls ls' : List (List Char)} (h : ∀ l ∈ ls, '\n' ∉ l) (h' : ∀ l ∈ ls', '\n' ∉ l) :
    lines ls = lines ls' ↔ ls = ls' := by
  refine ⟨fun heq => ?_, congrArg lines⟩
  have hcons (l : List Char) (ls : List (List Char)) : lines (l :: ls) = l ++ '\n' :: lines ls := by
    simp [lines]
  induction ls generalizing ls' with
  | nil =>
    cases ls' with
    | nil => rfl
    | cons => simp [lines] at heq
  | cons l ls ih =>
    cases ls' with
    | nil => simp [lines] at heq
    | cons l' ls' =>
      obtain ⟨hl, hls⟩ := List.forall_mem_cons.1 h
      obtain ⟨hl', hls'⟩ := List.forall_mem_cons.1 h'
      rw [hcons, hcons] at heq
      obtain ⟨rfl, hrest⟩ :=
        Text.append_inj_of_endsAt hl hl' Text.endsAt_cons Text.endsAt_cons heq
      rw [ih hls hls' (List.cons.inj hrest).2]

/-! ## Programs -/

section Programs

variable {bytes bytes' : List UInt8} {ops ops' : List Operation} {program program' : String}
  {arguments arguments' : List String} {files files' : FileStore}

/-- The operations of a program have no labels but the letters of axes and paths. -/
theorem newline_not_mem_listing_of_decode (h : Program.decode bytes = .ok ops)
    (hpaths : ∀ path, .save path ∈ ops → '\n' ∉ path.toList) :
    ∀ listing ∈ ops.map Operation.listing, '\n' ∉ listing := by
  obtain ⟨parts, -, -, hspells, -⟩ := Program.exists_spells_of_decode h
  refine List.forall_mem_map.2 fun op hop => Operation.newline_not_mem_listing ?_
  obtain ⟨part, hspell⟩ := Program.exists_spells_of_mem hspells op hop
  cases hspell with
  | save =>
    rintro label ⟨⟩
    exact hpaths _ hop
  | @rotate _ axis =>
    rintro label ⟨⟩
    exact (Operation.isWord_letter axis).not_mem (by decide)
  | _ => exact nofun

/-- The listings of a program are printed line by line. -/
theorem run_disassemble (programs : Programs) (input : List UInt8)
    (hrequest : request? arguments = some (.disassemble program))
    (hread : files.read program.toList = .ok (.bytes bytes))
    (hdecode : Program.decode bytes = .ok ops) :
    run programs arguments input files = ⟨.done, lines (ops.map Operation.listing), files⟩ := by
  have hfile : Program.decodeAt program.toList files = .ok ops := by
    rw [Program.decodeAt, hread]
    exact hdecode
  have hrun : run programs arguments input files = disassemble program files := by
    simp only [run, hrequest]
  rw [hrun, disassemble, hfile]

/-- Two programs are printed alike only if they have the same operations, as long as no path holds
the end of a line. -/
theorem disassembly_tells_operations (programs : Programs) (input : List UInt8)
    (hrequest : request? arguments = some (.disassemble program))
    (hrequest' : request? arguments' = some (.disassemble program'))
    (hread : files.read program.toList = .ok (.bytes bytes))
    (hread' : files'.read program'.toList = .ok (.bytes bytes'))
    (hdecode : Program.decode bytes = .ok ops) (hdecode' : Program.decode bytes' = .ok ops')
    (hpaths : ∀ path, .save path ∈ ops → '\n' ∉ path.toList)
    (hpaths' : ∀ path, .save path ∈ ops' → '\n' ∉ path.toList) :
    let outcome := run programs arguments input files
    let outcome' := run programs arguments' input files'
    outcome.ending = .done ∧ outcome'.ending = .done ∧
      (outcome.printed = outcome'.printed ↔ ops = ops') := by
  intro outcome outcome'
  have hrun : outcome = ⟨.done, lines (ops.map Operation.listing), files⟩ :=
    run_disassemble programs input hrequest hread hdecode
  have hrun' : outcome' = ⟨.done, lines (ops'.map Operation.listing), files'⟩ :=
    run_disassemble programs input hrequest' hread' hdecode'
  rw [hrun, hrun']
  refine ⟨rfl, rfl, ?_⟩
  rw [lines_inj (newline_not_mem_listing_of_decode hdecode hpaths)
    (newline_not_mem_listing_of_decode hdecode' hpaths'),
    Operation.listing_injective.list_map.eq_iff]

-- a path that holds the end of a line is printed as two lines
example : lines ([.save "a\npush"].map Operation.listing) =
    lines ([.save "a", .push].map Operation.listing) := by decide

/-- Three programs that turn by what is not a number and save under a name that looks like another
operation. The second spells the number and the letter of the axis otherwise and has more bytes
behind its end, but it has the operations of the first. The name in the third ends in a space. -/
theorem disassembly_tells_operations_look_alike :
    let first : List UInt8 := [4, 0x79, 0, 0, 0, 0, 0, 0, 0xf8, 0x7f] ++
      10 :: Utf8.encode "push [ka 1]".toList ++ [0]
    let second : List UInt8 := [4, 0x59, 1, 0, 0, 0, 0, 0, 0xf0, 0xff] ++
      10 :: Utf8.encode "push [ka 1]".toList ++ [0, 0, 99]
    let third : List UInt8 := [4, 0x79, 0, 0, 0, 0, 0, 0, 0xf8, 0x7f] ++
      10 :: Utf8.encode "push [ka 1] ".toList ++ [0]
    let ops : List Operation := [.rotate .y (.ofBits 0x7ff8000000000000), .save "push [ka 1]"]
    let others : List Operation := [.rotate .y (.ofBits 0x7ff8000000000000), .save "push [ka 1] "]
    let files : FileStore := ⟨[(["p".toList], .bytes first), (["q".toList], .bytes second),
      (["r".toList], .bytes third)], []⟩
    let printed (name : String) := (run (fun _ => none) ["disasm", name] [] files).printed
    Program.decode first = .ok ops ∧ Program.decode second = .ok ops ∧
      Program.decode third = .ok others ∧ printed "p" = printed "q" ∧
      printed "p" ≠ printed "r" := by
  intro first second third ops others files printed
  have hfirst : Program.decode first = .ok ops := by decide +kernel
  have hsecond : Program.decode second = .ok ops := by decide +kernel
  have hthird : Program.decode third = .ok others := by decide +kernel
  have hp : files.read "p".toList = .ok (.bytes first) := by decide +kernel
  have hq : files.read "q".toList = .ok (.bytes second) := by decide +kernel
  have hr : files.read "r".toList = .ok (.bytes third) := by decide +kernel
  have hpaths : ∀ path, .save path ∈ ops → '\n' ∉ path.toList := by
    intro path hpath
    obtain rfl : path = "push [ka 1]" := by simpa [ops] using hpath
    decide
  have hothers : ∀ path, .save path ∈ others → '\n' ∉ path.toList := by
    intro path hpath
    obtain rfl : path = "push [ka 1] " := by simpa [others] using hpath
    decide
  have hrequestp : request? ["disasm", "p"] = some (.disassemble "p") := rfl
  have hrequestq : request? ["disasm", "q"] = some (.disassemble "q") := rfl
  have hrequestr : request? ["disasm", "r"] = some (.disassemble "r") := rfl
  obtain ⟨-, -, hsame⟩ := disassembly_tells_operations (fun _ => none) [] hrequestp hrequestq
    hp hq hfirst hsecond hpaths hpaths
  obtain ⟨-, -, hdiffer⟩ := disassembly_tells_operations (fun _ => none) [] hrequestp hrequestr
    hp hr hfirst hthird hpaths hothers
  exact ⟨hfirst, hsecond, hthird, hsame.2 rfl, mt hdiffer.1 (by decide +kernel)⟩

end Programs

end CommandLine

end SceneScript
