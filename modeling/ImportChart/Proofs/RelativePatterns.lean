import ImportChart.Proofs.CharacterRuns
import ImportChart.Proofs.PatternRegex

/-!
# Patterns relative to the module

A relative pattern is resolved by putting the module path in front of it
(`resolve_relative`). If neither the module path nor the folder of the pattern
holds three dots, the resolved text holds them only where the pattern ends in
`/...`: the slash between the parts keeps their dots apart (`literals_append`).
So a pattern without that ending selects one path, and a pattern with it selects
the paths within a folder of the module (`selectsExactly_relative`), but none
that merely starts with the same characters.
-/

namespace ImportChart.Pattern

open Text

/-! ## Selected paths -/

/-- The path is that of the folder, or goes on behind it with a slash and
anything on one line. -/
def IsWithin (folder path : String) : Prop :=
  path = folder
    ∨ ∃ rest : String, '\n' ∉ rest.toList ∧ path = folder ++ "/" ++ rest

/-- The pattern selects the paths with the property and no others, and these are
the paths that the regular expression of its resolved text matches. -/
def SelectsExactly (pattern : Pattern) (p : String → Prop) : Prop :=
  ∀ path : String, (pattern.selects path = true ↔ p path)
    ∧ (ExpressionMatches (regexText pattern.resolved) path.toList ↔ p path)

theorem selectsExactly_of_fits {pattern : Pattern} {p : String → Prop}
    (h : ∀ path : String,
      Fits (literals pattern.resolved) path.toList ↔ p path) :
    pattern.SelectsExactly p := by
  intro path
  have hpieces : Matches pattern.pieces path.toList ↔ p path :=
    matches_pieces_iff.trans (h path)
  rw [← regex_eq]
  exact ⟨selects_iff_matches.trans hpieces,
    expressionMatches_regex_iff.trans hpieces⟩

theorem weaves_singleton_iff {literal text : List Char} :
    Weaves [literal] text ↔ text = literal := by
  constructor
  · intro h
    cases h with
    | last => rfl
    | run _ hrest => cases hrest
  · rintro rfl
    exact .last _

theorem fits_singleton_iff {literal text : List Char} :
    Fits [literal] text ↔ text = literal := by
  rw [Fits, weaves_singleton_iff]
  constructor
  · rintro (heq | ⟨front, last, hsplit, -⟩)
    · exact heq
    · have hlength := congrArg List.length hsplit
      rw [List.length_append] at hlength
      simp at hlength
  · exact Or.inl

/-- A literal that ends in a slash and is followed by a wildcard at the end. -/
theorem fits_open_iff {literal text : List Char} :
    Fits [literal ++ ['/'], []] text
      ↔ text = literal ∨ ∃ run, '\n' ∉ run ∧ text = literal ++ '/' :: run := by
  constructor
  · rintro (hweaves | ⟨front, last, hsplit, hweaves⟩)
    · cases hweaves with
      | @run _ run _ _ hrun hrest =>
          rw [weaves_singleton_iff.mp hrest]
          exact Or.inr ⟨run, hrun, by simp⟩
    · have hlength := congrArg List.length hsplit
      rw [List.length_append] at hlength
      obtain rfl : front = [] := by
        rw [← List.length_eq_zero_iff]
        simpa using hlength
      obtain ⟨hlast, -⟩ := List.cons.inj hsplit
      rw [List.nil_append, ← List.append_cancel_right hlast] at hweaves
      exact Or.inl (weaves_singleton_iff.mp hweaves)
  · rintro (rfl | ⟨run, hrun, rfl⟩)
    · exact Or.inr ⟨[], text, rfl, .last text⟩
    · have hweaves : Weaves [literal ++ ['/'], []] (literal ++ ['/'] ++ run ++ []) :=
        .run hrun (.last [])
      exact Or.inl (by simpa using hweaves)

/-- A text without wildcards selects itself. -/
theorem selectsExactly_of_single {pattern : Pattern} {path : String}
    (h : literals pattern.resolved = [path.toList]) :
    pattern.SelectsExactly (· = path) := by
  refine selectsExactly_of_fits fun other => ?_
  rw [h, fits_singleton_iff, String.toList_inj]

/-- A text whose only wildcard stands behind a slash at its end selects what is
within the folder in front of the slash. -/
theorem selectsExactly_of_open {pattern : Pattern} {folder : String}
    (h : literals pattern.resolved = [folder.toList ++ ['/'], []]) :
    pattern.SelectsExactly (IsWithin folder) := by
  refine selectsExactly_of_fits fun path => ?_
  rw [h, fits_open_iff, IsWithin, String.toList_inj]
  refine or_congr_right ?_
  constructor
  · rintro ⟨run, hrun, heq⟩
    refine ⟨String.ofList run, by rwa [String.toList_ofList], ?_⟩
    rw [← String.toList_inj, heq]
    simp
  · rintro ⟨rest, hrest, rfl⟩
    exact ⟨rest.toList, hrest, by simp⟩

/-- What only starts with the path of the folder is not within it. -/
theorem not_isWithin_append {folder more : String} (hne : more ≠ "")
    (hslash : ¬['/'] <+: more.toList) : ¬IsWithin folder (folder ++ more) := by
  rintro (heq | ⟨rest, -, heq⟩)
  · have hlength := congrArg String.length heq
    rw [String.length_append] at hlength
    exact hne (String.length_eq_zero_iff.mp (by omega))
  · rw [String.append_assoc, String.append_right_inj] at heq
    exact hslash ⟨rest.toList, by rw [heq, String.toList_append]; rfl⟩

/-! ## Resolved texts -/

theorem resolve_dot (modulePath : String) : resolve modulePath "." = modulePath :=
  rfl

theorem resolve_dot_slash (modulePath : String) :
    resolve modulePath "./" = modulePath :=
  rfl

/-- What a relative pattern says goes behind the module path, without the slashes
at its end. -/
theorem resolve_dot_slash_append {modulePath rel : String} (hne : rel ≠ "") :
    resolve modulePath ("./" ++ rel)
      = modulePath ++ "/"
        ++ String.ofList (dropEndWhile (· == '/') rel.toList) := by
  have hrelative : relative? ("./" ++ rel).toList = some rel.toList := by
    rw [relative?, String.toList_append, if_neg (by simp)]
    exact afterHead?_eq_some_iff.mpr rfl
  obtain ⟨c, cs, hcons⟩ := List.exists_cons_of_ne_nil
    (fun hnil => hne (String.toList_eq_nil_iff.mp hnil) : rel.toList ≠ [])
  rw [resolve, hrelative, hcons]
  rfl

theorem resolve_relative {modulePath rel slashes : String} (hne : rel ≠ "")
    (hend : ¬['/'] <:+ rel.toList) (hslashes : ∀ c ∈ slashes.toList, c = '/') :
    resolve modulePath ("./" ++ (rel ++ slashes)) = modulePath ++ "/" ++ rel := by
  have hstops : Source.StopsAt (· == '/') rel.toList.reverse := by
    intro c cs heq
    refine beq_eq_false_iff_ne.mpr fun hc => hend ?_
    rw [← List.reverse_prefix, heq, hc]
    exact List.prefix_append ['/'] cs
  have hslash : ∀ c ∈ slashes.toList, (c == '/') = true :=
    fun c hc => beq_iff_eq.mpr (hslashes c hc)
  have hall : rel ++ slashes ≠ "" :=
    fun hnil => hne (String.append_eq_empty_iff.mp hnil).1
  rw [resolve_dot_slash_append hall, String.toList_append,
    Source.dropEndWhile_append_of_forall hslash,
    Source.dropEndWhile_of_stopsAt hstops, String.ofList_toList]

/-- A wildcard at the end is no slash. -/
theorem resolve_append_dots (modulePath rel : String) :
    resolve modulePath ("./" ++ (rel ++ "..."))
      = modulePath ++ "/" ++ (rel ++ "...") := by
  have hne : rel ++ "..." ≠ "" := by simp
  have hend : ¬['/'] <:+ (rel ++ "...").toList := by
    rw [← List.reverse_prefix, String.toList_append, List.reverse_append]
    exact fun h => absurd (List.cons_prefix_cons.mp h).1 (by decide)
  have hresolve : resolve modulePath ("./" ++ (rel ++ "..." ++ ""))
      = modulePath ++ "/" ++ (rel ++ "...") :=
    resolve_relative hne hend (List.forall_mem_nil _)
  rwa [String.append_empty] at hresolve

/-- No dots before a slash make a wildcard with those behind it. -/
theorem literals_append {front : String} (h : ¬"...".toList <:+: front.toList)
    (back : String) :
    literals (front ++ "/" ++ back)
      = (literals back).modifyHead (front.toList ++ '/' :: ·) := by
  have hdots : "...".toList ≠ [] := by decide
  have hslash : '/' ∉ "...".toList := by decide
  have htext : (front ++ "/" ++ back).toList = front.toList ++ '/' :: back.toList := by
    rw [String.toList_append, String.toList_append, List.append_assoc]
    rfl
  rw [literals, htext, splitAtKey_append_cons hdots hslash _ h]
  rfl

theorem literals_of_not_infix {text : String}
    (h : ¬"...".toList <:+: text.toList) : literals text = [text.toList] :=
  splitAtKey_of_not_infix h

/-- Only the dots at the end make a wildcard. -/
theorem literals_append_dots {folder : String}
    (h : ¬"...".toList <:+: folder.toList) :
    literals (folder ++ "/" ++ "...") = [folder.toList ++ ['/'], []] := by
  have hdots : literals "..." = [[], []] := by decide +kernel
  rw [literals_append h, hdots]
  rfl

/-! ## Relative patterns -/

section Relative

variable {modulePath folder : String}

theorem selectsExactly_module (hmodule : ¬"...".toList <:+: modulePath.toList)
    {pattern : String} (hresolve : resolve modulePath pattern = modulePath) :
    (ofText modulePath pattern).SelectsExactly (· = modulePath) := by
  refine selectsExactly_of_single ?_
  rw [ofText, hresolve, literals_of_not_infix hmodule]

theorem selectsExactly_folder {slashes : String}
    (hmodule : ¬"...".toList <:+: modulePath.toList)
    (hfolder : ¬"...".toList <:+: folder.toList) (hne : folder ≠ "")
    (hend : ¬['/'] <:+ folder.toList) (hslashes : ∀ c ∈ slashes.toList, c = '/') :
    (ofText modulePath ("./" ++ folder ++ slashes)).SelectsExactly
      (· = modulePath ++ "/" ++ folder) := by
  refine selectsExactly_of_single ?_
  rw [ofText, String.append_assoc, resolve_relative hne hend hslashes,
    literals_append hmodule, literals_of_not_infix hfolder]
  simp

theorem selectsExactly_within_module
    (hmodule : ¬"...".toList <:+: modulePath.toList) :
    (ofText modulePath "./...").SelectsExactly (IsWithin modulePath) := by
  have hresolve : resolve modulePath "./..." = modulePath ++ "/" ++ "..." :=
    resolve_append_dots modulePath ""
  refine selectsExactly_of_open ?_
  rw [ofText, hresolve, literals_append_dots hmodule]

theorem selectsExactly_within_folder
    (hmodule : ¬"...".toList <:+: modulePath.toList)
    (hfolder : ¬"...".toList <:+: folder.toList) :
    (ofText modulePath ("./" ++ folder ++ "/...")).SelectsExactly
      (IsWithin (modulePath ++ "/" ++ folder)) := by
  have htext : "./" ++ folder ++ "/..." = "./" ++ (folder ++ "/" ++ "...") := by
    rw [String.append_assoc, String.append_assoc]
    rfl
  refine selectsExactly_of_open ?_
  rw [ofText, htext, resolve_append_dots, literals_append hmodule,
    literals_append_dots hfolder]
  simp

/-- Of a module and a folder of it without dots in threes: `.` and `./` select
the module path, `./folder` the path of the folder, also with slashes at its
end, `./folder/...` the paths within the folder, and `./...` those within the
module. Neither of the last two selects a path that goes on without a slash. -/
theorem selectsExactly_relative
    (hmodule : ¬"...".toList <:+: modulePath.toList)
    (hfolder : ¬"...".toList <:+: folder.toList) (hne : folder ≠ "")
    (hend : ¬['/'] <:+ folder.toList) :
    (ofText modulePath ".").SelectsExactly (· = modulePath)
      ∧ (ofText modulePath "./").SelectsExactly (· = modulePath)
      ∧ (∀ slashes : String, (∀ c ∈ slashes.toList, c = '/') →
          (ofText modulePath ("./" ++ folder ++ slashes)).SelectsExactly
            (· = modulePath ++ "/" ++ folder))
      ∧ (ofText modulePath ("./" ++ folder ++ "/...")).SelectsExactly
          (IsWithin (modulePath ++ "/" ++ folder))
      ∧ (ofText modulePath "./...").SelectsExactly (IsWithin modulePath)
      ∧ ∀ more : String, more ≠ "" → ¬['/'] <+: more.toList →
          (ofText modulePath ("./" ++ folder ++ "/...")).selects
              (modulePath ++ "/" ++ folder ++ more) = false
            ∧ (ofText modulePath "./...").selects (modulePath ++ more)
              = false := by
  have hwithinFolder := selectsExactly_within_folder hmodule hfolder
  have hwithinModule := selectsExactly_within_module hmodule
  refine ⟨selectsExactly_module hmodule (resolve_dot modulePath),
    selectsExactly_module hmodule (resolve_dot_slash modulePath),
    fun slashes => selectsExactly_folder hmodule hfolder hne hend,
    hwithinFolder, hwithinModule, ?_⟩
  intro more hmore hslash
  constructor
  · rw [Bool.eq_false_iff, ne_eq, (hwithinFolder _).1]
    exact not_isWithin_append hmore hslash
  · rw [Bool.eq_false_iff, ne_eq, (hwithinModule _).1]
    exact not_isWithin_append hmore hslash

/-- Dots at both sides of the slash, and marks of regular expressions. -/
theorem selectsExactly_relative_marks :
    ¬"...".toList <:+: "x.io/m..".toList ∧ ¬"...".toList <:+: "..a(+".toList
      ∧ "..a(+" ≠ "" ∧ ¬['/'] <:+ "..a(+".toList
      ∧ (ofText "x.io/m.." "./..a(+//").selects "x.io/m../..a(+" = true
      ∧ (ofText "x.io/m.." "./..a(+/...").selects "x.io/m../..a(+/b" = true
      ∧ (ofText "x.io/m.." "./..a(+/...").selects "x.io/m../..a(+b" = false
      ∧ (ofText "x.io/m.." "./...").selects "x.io/m..v2/a" = false := by
  have hmodule : ¬"...".toList <:+: "x.io/m..".toList := by
    decide +kernel
  have hfolder : ¬"...".toList <:+: "..a(+".toList := by decide +kernel
  have hne : "..a(+" ≠ "" := by decide
  have hend : ¬['/'] <:+ "..a(+".toList := by decide
  obtain ⟨-, -, hslashes, hbelow, -, hbeside⟩ :=
    selectsExactly_relative hmodule hfolder hne hend
  refine ⟨hmodule, hfolder, hne, hend, ?_, ?_, ?_, ?_⟩
  · exact (hslashes "//" (by simp) _).1.mpr rfl
  · exact (hbelow _).1.mpr (Or.inr ⟨"b", by decide, rfl⟩)
  · exact (hbeside "b" (by decide) (by decide)).1
  · exact (hbeside "v2/a" (by decide) (by decide)).2

end Relative

end ImportChart.Pattern
