import ImportChart.Proofs.CharacterRuns
import ImportChart.Settings

/-!
# Comma lists of rules

The rules to ignore are given as one text, with commas in between. `Lists rules
items` says which rules the items of such a text name: an item is blank and names
nothing, or it is a rule with blanks around it. A text names exactly the rules
that are read from it (`ignoreList_eq_iff`).

Reading goes item by item (`Lists.rulesOf_eq`, `lists_rulesOf`), and a comma
between two texts is a comma of the whole (`ignoreList_append`). No rule that is
read is empty, so path rules keep all of them (`excluded_pathRules`), and a path is
left out by a text that it contains, not by nothing.
-/

namespace ImportChart

open ImportChart.Text ImportChart.Source

/-! ## What a list names -/

/-- What a comma list can name: some text without a comma and without blanks
around it. -/
structure IsRule (rule : String) : Prop where
  ne_empty : rule ≠ ""
  noComma : ',' ∉ rule.toList
  front : StopsAt isBlank rule.toList
  back : StopsAt isBlank rule.toList.reverse

/-- The rules that the items between the commas of a list name. -/
inductive Lists : List String → List (List Char) → Prop
  | nil : Lists [] []
  | blank {blanks : List Char} {rules : List String} {items : List (List Char)} :
      (∀ c ∈ blanks, isBlank c = true) → Lists rules items →
      Lists rules (blanks :: items)
  | rule {rule : String} {before after : List Char} {rules : List String}
      {items : List (List Char)} : IsRule rule →
      (∀ c ∈ before, isBlank c = true) → (∀ c ∈ after, isBlank c = true) →
      Lists rules items →
      Lists (rule :: rules) ((before ++ (rule.toList ++ after)) :: items)

/-- Rules name themselves. -/
theorem lists_of_isRule : ∀ {rules : List String}, (∀ rule ∈ rules, IsRule rule) →
    Lists rules (rules.map String.toList)
  | [], _ => .nil
  | rule :: rules, h => by
      obtain ⟨hrule, hrules⟩ := List.forall_mem_cons.mp h
      have hlists := Lists.rule hrule (List.forall_mem_nil _) (List.forall_mem_nil _)
        (lists_of_isRule hrules)
      rwa [List.append_nil, List.nil_append] at hlists

theorem Lists.isRule {rules : List String} {items : List (List Char)}
    (h : Lists rules items) : ∀ rule ∈ rules, IsRule rule := by
  induction h with
  | nil => exact List.forall_mem_nil _
  | blank _ _ ih => exact ih
  | rule hrule _ _ _ ih => exact List.forall_mem_cons.mpr ⟨hrule, ih⟩

theorem comma_not_mem_of_blanks {blanks : List Char}
    (h : ∀ c ∈ blanks, isBlank c = true) : ',' ∉ blanks := by
  intro hmem
  have hcomma := h ',' hmem
  revert hcomma
  decide

theorem Lists.comma_not_mem {rules : List String} {items : List (List Char)}
    (h : Lists rules items) : ∀ item ∈ items, ',' ∉ item := by
  induction h with
  | nil => exact List.forall_mem_nil _
  | blank hblanks _ ih =>
      exact List.forall_mem_cons.mpr ⟨comma_not_mem_of_blanks hblanks, ih⟩
  | rule hrule hbefore hafter _ ih =>
      refine List.forall_mem_cons.mpr ⟨?_, ih⟩
      rw [List.mem_append, List.mem_append, not_or, not_or]
      exact ⟨comma_not_mem_of_blanks hbefore, hrule.noComma,
        comma_not_mem_of_blanks hafter⟩

/-! ## Reading item by item -/

/-- The rules among the items of a list. -/
def rulesOf (items : List (List Char)) : List String :=
  ((items.map trim).filter (! ·.isEmpty)).map String.ofList

theorem ignoreList_eq (text : String) :
    ignoreList text = rulesOf (text.toList.splitOn ',') := rfl

theorem rulesOf_append (items others : List (List Char)) :
    rulesOf (items ++ others) = rulesOf items ++ rulesOf others := by
  simp only [rulesOf, List.map_append, List.filter_append]

theorem rulesOf_cons_of_trim_eq_nil {item : List Char} (h : trim item = [])
    (items : List (List Char)) : rulesOf (item :: items) = rulesOf items := by
  simp [rulesOf, h]

theorem rulesOf_cons_of_trim_ne_nil {item : List Char} (h : trim item ≠ [])
    (items : List (List Char)) :
    rulesOf (item :: items) = String.ofList (trim item) :: rulesOf items := by
  simp [rulesOf, h]

theorem Lists.rulesOf_eq {rules : List String} {items : List (List Char)}
    (h : Lists rules items) : rulesOf items = rules := by
  induction h with
  | nil => rfl
  | blank hblanks _ ih =>
      rw [rulesOf_cons_of_trim_eq_nil (trim_of_blanks hblanks), ih]
  | @rule rule before after rules items hrule hbefore hafter _ ih =>
      have hne : rule.toList ≠ [] :=
        fun h => hrule.ne_empty (String.toList_eq_nil_iff.mp h)
      have htrim : trim (before ++ (rule.toList ++ after)) = rule.toList :=
        dropBothWhile_of_stopsAt hbefore hne hrule.front hrule.back hafter
      rw [rulesOf_cons_of_trim_ne_nil (by rwa [htrim]), htrim, String.ofList_toList, ih]

theorem isRule_trim {item : List Char} (hcomma : ',' ∉ item) (hne : trim item ≠ []) :
    IsRule (String.ofList (trim item)) := by
  obtain ⟨before, after, heq, -, -⟩ := exists_eq_append_trim item
  refine ⟨fun h => hne (String.ofList_eq_empty_iff.mp h), ?_, ?_, ?_⟩
  · rw [String.toList_ofList]
    intro hmem
    rw [heq] at hcomma
    exact hcomma (List.mem_append_left _ (List.mem_append_right _ hmem))
  · rw [String.toList_ofList]
    exact stopsAt_trim item
  · rw [String.toList_ofList]
    exact stopsAt_reverse_trim item

/-- Every item without a comma is blank or names a rule. -/
theorem lists_rulesOf : ∀ {items : List (List Char)},
    (∀ item ∈ items, ',' ∉ item) → Lists (rulesOf items) items
  | [], _ => .nil
  | item :: items, h => by
      obtain ⟨hitem, hitems⟩ := List.forall_mem_cons.mp h
      obtain ⟨before, after, heq, hbefore, hafter⟩ := exists_eq_append_trim item
      by_cases htrim : trim item = []
      · rw [rulesOf_cons_of_trim_eq_nil htrim]
        refine .blank ?_ (lists_rulesOf hitems)
        rw [heq, htrim, List.append_nil, List.forall_mem_append]
        exact ⟨hbefore, hafter⟩
      · rw [rulesOf_cons_of_trim_ne_nil htrim]
        have hlists := Lists.rule (isRule_trim hitem htrim) hbefore hafter
          (lists_rulesOf hitems)
        rwa [String.toList_ofList, ← List.append_assoc, ← heq] at hlists

/-! ## Reading a list -/

theorem ignoreList_append (text other : String) :
    ignoreList (text ++ "," ++ other) = ignoreList text ++ ignoreList other := by
  have hlist : (text ++ "," ++ other).toList
      = text.toList ++ ',' :: other.toList := by
    simp
  rw [ignoreList_eq, hlist, List.splitOn_append_cons_self, rulesOf_append]
  rfl

/-- A text is read as the rules that its items name. -/
theorem ignoreList_eq_iff {text : String} {rules : List String} :
    ignoreList text = rules
      ↔ ∃ items, text.toList = [','].intercalate items ∧ Lists rules items := by
  constructor
  · rintro rfl
    refine ⟨text.toList.splitOn ',', (List.intercalate_splitOn ',').symm, ?_⟩
    exact lists_rulesOf fun item => not_mem_of_mem_splitOn
  · rintro ⟨items, htext, hlists⟩
    rw [ignoreList_eq, htext]
    cases items with
    | nil =>
        cases hlists
        rfl
    | cons item items =>
        rw [List.splitOn_intercalate ',' hlists.comma_not_mem (List.cons_ne_nil _ _)]
        exact hlists.rulesOf_eq

theorem isRule_of_mem_ignoreList {text rule : String} (h : rule ∈ ignoreList text) :
    IsRule rule := by
  obtain ⟨items, -, hlists⟩ := ignoreList_eq_iff.mp (rfl : ignoreList text = _)
  exact hlists.isRule rule h

/-- No rule of a list is lost, and none leaves out every path. -/
theorem excluded_pathRules {settings : Settings} {text : String}
    (h : settings.ignore = ignoreList text) :
    settings.pathRules.excluded = ignoreList text := by
  rw [Settings.pathRules, PathRules.ofTexts, h]
  refine List.filter_eq_self.mpr fun rule hrule => ?_
  exact bne_iff_ne.mpr (isRule_of_mem_ignoreList hrule).ne_empty

theorem excludes_pathRules_iff {settings : Settings} {text path : String}
    (h : settings.ignore = ignoreList text) :
    settings.pathRules.excludes path = true
      ↔ ∃ rule ∈ ignoreList text, rule ≠ "" ∧ rule.toList <:+: path.toList := by
  rw [PathRules.excludes_iff, excluded_pathRules h]
  constructor
  · rintro ⟨rule, hrule, hwithin⟩
    exact ⟨rule, hrule, (isRule_of_mem_ignoreList hrule).ne_empty, hwithin⟩
  · rintro ⟨rule, hrule, -, hwithin⟩
    exact ⟨rule, hrule, hwithin⟩

/-- Reading undoes joining by commas, whatever blanks stand around the rules and
whatever blank items between them; a comma between two texts joins what they name;
and all that is read is a rule, so the path rules of a chart keep every one of them
in order. -/
theorem ignoreList_reads_rules :
    (∀ text other : String,
        ignoreList (text ++ "," ++ other) = ignoreList text ++ ignoreList other)
      ∧ (∀ text : String, ∀ rule ∈ ignoreList text, IsRule rule)
      ∧ (∀ rules : List String, (∀ rule ∈ rules, IsRule rule) →
        ignoreList (",".intercalate rules) = rules)
      ∧ (∀ (text : String) (rules : List String), ignoreList text = rules
        ↔ ∃ items, text.toList = [','].intercalate items ∧ Lists rules items)
      ∧ ∀ (settings : Settings) (text : String),
        settings.ignore = ignoreList text →
          settings.pathRules.excluded = ignoreList text
            ∧ ∀ path, settings.pathRules.excludes path = true
              ↔ ∃ rule ∈ ignoreList text,
                rule ≠ "" ∧ rule.toList <:+: path.toList := by
  refine ⟨ignoreList_append, fun _ _ => isRule_of_mem_ignoreList,
    fun rules hrules => ignoreList_eq_iff.mpr ⟨_, ?_, lists_of_isRule hrules⟩,
    fun _ _ => ignoreList_eq_iff,
    fun _ _ h => ⟨excluded_pathRules h, fun _ => excludes_pathRules_iff h⟩⟩
  exact String.toList_intercalate

/-- Blank items, and blanks that are no spaces around a rule. -/
def scatteredRules : String := " /vendor/ ,,\t,\u00a0mocks\r"

theorem ignoreList_reads_rules_scatteredRules :
    ignoreList (scatteredRules ++ "," ++ "x y") = ["/vendor/", "mocks", "x y"]
      ∧ IsRule "mocks"
      ∧ ignoreList (",".intercalate ["mocks"]) = ["mocks"]
      ∧ (∃ items, scatteredRules.toList = [','].intercalate items
        ∧ Lists ["/vendor/", "mocks"] items)
      ∧ { Settings.default with ignore := ignoreList scatteredRules }.pathRules.excluded
        = ["/vendor/", "mocks"] := by
  obtain ⟨happend, hrules, hjoined, hiff, hsettings⟩ := ignoreList_reads_rules
  have hread : ignoreList scatteredRules = ["/vendor/", "mocks"] := by decide +kernel
  have hother : ignoreList "x y" = ["x y"] := by decide +kernel
  have hmocks : IsRule "mocks" := hrules scatteredRules _ (by simp [hread])
  refine ⟨?_, hmocks, hjoined _ (List.forall_mem_singleton.mpr hmocks),
    (hiff _ _).mp hread, ?_⟩
  · rw [happend, hread, hother]
    rfl
  · exact (hsettings _ scatteredRules rfl).1.trans hread

end ImportChart
