import ImportChart.Text.Search

/-!
# The leftmost occurrence

`Text.cutAt?` goes through a text from its start and cuts at the first place
where the key fits, so no occurrence starts earlier (`length_le_of_cutAt?`).
What is left when that occurrence is cut out is therefore determined by the
text and the key alone (`cutOut_iff`). Splitting cuts there again and again: a
key at the head of the text ends the first part (`splitAtKey_append`), and a
character at which no key starts belongs to it (`splitAtKey_cons`), and so does a
text without the key up to a character that the key cannot hold
(`splitAtKey_append_cons`). The first part is all that stands before the key
(`head?_splitAtKey`), and it is free of it (`not_infix_before`).
-/

namespace ImportChart.Text

/-- `result` is the text without the leftmost occurrence of `key`, or the text
itself if `key` does not occur. -/
inductive CutOut (key text : List Char) : List Char → Prop
  | absent : ¬key <:+: text → CutOut key text text
  | leftmost {front rest : List Char} : text = front ++ key ++ rest →
      (∀ front' rest', text = front' ++ key ++ rest' →
        front.length ≤ front'.length) →
      CutOut key text (front ++ rest)

/-- No occurrence starts before the one at which the search cuts. -/
theorem length_le_of_cutAt? {key : List Char} : ∀ {cs front rest : List Char},
    cutAt? key cs = some (front, rest) →
    ∀ front' rest', cs = front' ++ key ++ rest' → front.length ≤ front'.length
  | [], front, rest, h, front', rest', _ => by
      have hparts := append_of_cutAt? h
      simp only [List.append_eq_nil_iff] at hparts
      rw [hparts.1.1]
      exact Nat.zero_le _
  | c :: cs, front, rest, h, [], rest', hcs => by
      rw [List.nil_append] at hcs
      rw [cutAt?, afterHead?_eq_some_iff.mpr hcs] at h
      cases h
      exact Nat.le_refl _
  | c :: cs, front, rest, h, d :: front', rest', hcs => by
      rw [List.cons_append, List.cons_append, List.cons.injEq] at hcs
      rw [cutAt?] at h
      split at h
      · cases h
        exact Nat.zero_le _
      · obtain ⟨⟨cutFront, cutRest⟩, hcut, heq⟩ := Option.map_eq_some_iff.mp h
        cases heq
        exact Nat.succ_le_succ (length_le_of_cutAt? hcut front' rest' hcs.2)

/-- `removeFirst` is the one way to cut out the leftmost occurrence. -/
theorem cutOut_iff {key text result : List Char} :
    CutOut key text result ↔ result = removeFirst key text := by
  unfold removeFirst
  cases hcut : cutAt? key text with
  | none =>
      have habsent : ¬key <:+: text := by
        intro h
        have hfound := contains_iff.mpr h
        simp [contains, hcut] at hfound
      constructor
      · rintro (_ | ⟨htext, _⟩)
        · rfl
        · exact absurd ⟨_, _, htext.symm⟩ habsent
      · rintro rfl
        exact CutOut.absent habsent
  | some cut =>
      obtain ⟨front, rest⟩ := cut
      have htext := append_of_cutAt? hcut
      have hfirst := length_le_of_cutAt? hcut
      constructor
      · rintro (habsent | @⟨front', rest', htext', hfirst'⟩)
        · exact absurd ⟨front, rest, htext⟩ habsent
        · have hlength : front'.length = front.length :=
            Nat.le_antisymm (hfirst' front rest htext.symm)
              (hfirst front' rest' htext')
          have hsplit : front' ++ (key ++ rest') = front ++ (key ++ rest) := by
            rw [← List.append_assoc, ← htext', ← List.append_assoc, htext]
          obtain ⟨rfl, hrest⟩ := List.append_inj hsplit hlength
          rw [List.append_cancel_left hrest]
      · rintro rfl
        exact CutOut.leftmost htext.symm hfirst

/-! ## Splitting from the left -/

theorem splitAtKey_of_none {key cs : List Char} (h : cutAt? key cs = none) :
    splitAtKey key cs = [cs] := by
  rw [splitAtKey]
  split
  · rfl
  · split
    · rfl
    · next hcut =>
        rw [h] at hcut
        cases hcut

theorem splitAtKey_of_some {key cs : List Char}
    {cut : List Char × List Char} (hkey : key ≠ [])
    (h : cutAt? key cs = some cut) :
    splitAtKey key cs = cut.1 :: splitAtKey key cut.2 := by
  rw [splitAtKey, dif_neg hkey]
  split
  · next hcut =>
      rw [h] at hcut
      cases hcut
  · next hcut =>
      rw [h] at hcut
      cases hcut
      rfl

theorem splitAtKey_ne_nil (key cs : List Char) : splitAtKey key cs ≠ [] := by
  rw [splitAtKey]
  split
  · exact List.cons_ne_nil _ _
  · split
    · exact List.cons_ne_nil _ _
    · exact List.cons_ne_nil _ _

theorem splitAtKey_nil {key : List Char} (hkey : key ≠ []) :
    splitAtKey key [] = [[]] :=
  splitAtKey_of_none (by simp [cutAt?, hkey])

/-- At the key the text is split. -/
theorem splitAtKey_append {key : List Char} (hkey : key ≠ [])
    (cs : List Char) :
    splitAtKey key (key ++ cs) = [] :: splitAtKey key cs := by
  have hcut : cutAt? key (key ++ cs) = some ([], cs) := by
    cases hall : key ++ cs with
    | nil => exact absurd (List.append_eq_nil_iff.mp hall).1 hkey
    | cons d ds => rw [cutAt?, afterHead?_eq_some_iff.mpr hall.symm]
  rw [splitAtKey_of_some hkey hcut]

/-- Where the key does not start, the character belongs to the first part. -/
theorem splitAtKey_cons {key cs : List Char} {c : Char} (hkey : key ≠ [])
    (h : ¬key <+: c :: cs) :
    splitAtKey key (c :: cs) = (splitAtKey key cs).modifyHead (c :: ·) := by
  have hhead : afterHead? key (c :: cs) = none := by
    rw [afterHead?, if_neg (by rwa [List.isPrefixOf_iff_prefix])]
  have hcut : cutAt? key (c :: cs)
      = (cutAt? key cs).map fun cut => (c :: cut.1, cut.2) := by
    rw [cutAt?, hhead]
  cases hrest : cutAt? key cs with
  | none =>
      rw [hrest] at hcut
      rw [splitAtKey_of_none hcut, splitAtKey_of_none hrest]
      rfl
  | some cut =>
      rw [hrest] at hcut
      rw [splitAtKey_of_some hkey hcut, splitAtKey_of_some hkey hrest]
      rfl

/-- A word that cannot hold a character stands before it. -/
theorem prefix_of_prefix_append {c : Char} {word front back : List Char}
    (h : c ∉ word) (hstart : word <+: front ++ c :: back) : word <+: front := by
  obtain ⟨rest, heq⟩ := hstart
  rcases List.append_eq_append_iff.mp heq with
    ⟨more, hfront, -⟩ | ⟨more, hword, hmore⟩
  · exact ⟨more, hfront.symm⟩
  · cases more with
    | nil => exact ⟨[], by simpa using hword⟩
    | cons d ds =>
        obtain ⟨rfl, -⟩ := List.cons.inj hmore
        exact absurd (hword ▸ List.mem_append_right front List.mem_cons_self) h

/-- A text without the key belongs to the first part, with the character behind
it, if the key cannot hold that character. -/
theorem splitAtKey_append_cons {c : Char} {key : List Char} (hkey : key ≠ [])
    (hc : c ∉ key) (back : List Char) : ∀ {front : List Char},
    ¬key <:+: front → splitAtKey key (front ++ c :: back)
      = (splitAtKey key back).modifyHead (front ++ c :: ·)
  | [], _ => by
      have hstart : ¬key <+: c :: back := fun hprefix => by
        have hnil : key <+: [] := prefix_of_prefix_append hc hprefix
        exact hkey (List.prefix_nil.mp hnil)
      rw [List.nil_append, splitAtKey_cons hkey hstart]
      rfl
  | d :: front, h => by
      have hstart : ¬key <+: d :: (front ++ c :: back) := fun hprefix => by
        have hfront : key <+: d :: front := prefix_of_prefix_append hc hprefix
        exact h hfront.isInfix
      have hrest : ¬key <:+: front := fun hwithin =>
        h (hwithin.trans (List.suffix_cons d front).isInfix)
      rw [List.cons_append, splitAtKey_cons hkey hstart,
        splitAtKey_append_cons hkey hc back hrest]
      cases splitAtKey key back <;> rfl

/-- A text without the key is not split. -/
theorem splitAtKey_of_not_infix {key cs : List Char} (h : ¬key <:+: cs) :
    splitAtKey key cs = [cs] := by
  refine splitAtKey_of_none (Option.not_isSome_iff_eq_none.mp fun hfound => ?_)
  exact h (contains_iff.mp hfound)

/-- What cannot hold the start of the key belongs to the first part. -/
theorem splitAtKey_append_of_not_mem {c : Char} {key : List Char} :
    ∀ {front : List Char}, c ∉ front → ∀ cs : List Char,
      splitAtKey (c :: key) (front ++ cs)
        = (splitAtKey (c :: key) cs).modifyHead (front ++ ·)
  | [], _, cs => by
      simp only [List.nil_append]
      cases splitAtKey (c :: key) cs <;> rfl
  | d :: front, h, cs => by
      rw [List.mem_cons, not_or] at h
      have hstart : ¬c :: key <+: d :: (front ++ cs) :=
        fun hprefix => h.1 (List.cons_prefix_cons.mp hprefix).1
      rw [List.cons_append, splitAtKey_cons (List.cons_ne_nil c key) hstart,
        splitAtKey_append_of_not_mem h.2]
      cases splitAtKey (c :: key) cs <;> rfl

/-! ## What stands before the key -/

/-- It is the first part of the text. -/
theorem head?_splitAtKey {key : List Char} (hkey : key ≠ []) (cs : List Char) :
    (splitAtKey key cs).head? = some (before key cs) := by
  rw [before]
  cases hcut : cutAt? key cs with
  | none => rw [splitAtKey_of_none hcut]; rfl
  | some cut => rw [splitAtKey_of_some hkey hcut]; rfl

theorem prefix_before (key cs : List Char) : before key cs <+: cs := by
  rw [before]
  cases hcut : cutAt? key cs with
  | none => exact List.prefix_rfl
  | some cut =>
      have htext := append_of_cutAt? hcut
      rw [List.append_assoc] at htext
      exact ⟨key ++ cut.2, htext⟩

/-- The key does not occur in it, as the cut is at the leftmost occurrence. -/
theorem not_infix_before {key : List Char} (hkey : key ≠ []) (cs : List Char) :
    ¬key <:+: before key cs := by
  rw [before]
  cases hcut : cutAt? key cs with
  | none =>
      intro hwithin
      have hfound := contains_iff.mpr hwithin
      rw [contains, hcut] at hfound
      cases hfound
  | some cut =>
      rintro ⟨front, back, (hfront : front ++ key ++ back = cut.1)⟩
      have htext : cs = front ++ key ++ (back ++ key ++ cut.2) := by
        rw [← append_of_cutAt? hcut, ← hfront]
        simp only [List.append_assoc]
      have hfirst := length_le_of_cutAt? hcut _ _ htext
      have hlength := congrArg List.length hfront
      have hpos := List.length_pos_iff.mpr hkey
      simp only [List.length_append] at hlength
      omega

theorem before_append {key : List Char} (hkey : key ≠ []) (cs : List Char) :
    before key (key ++ cs) = [] := by
  have hhead := head?_splitAtKey hkey (key ++ cs)
  rw [splitAtKey_append hkey] at hhead
  exact (Option.some.inj hhead).symm

theorem before_append_cons {c : Char} {key front : List Char} (hkey : key ≠ [])
    (hc : c ∉ key) (h : ¬key <:+: front) (back : List Char) :
    before key (front ++ c :: back) = front ++ c :: before key back := by
  have hhead := head?_splitAtKey hkey (front ++ c :: back)
  rw [splitAtKey_append_cons hkey hc back h, List.head?_modifyHead,
    head?_splitAtKey hkey] at hhead
  exact (Option.some.inj hhead).symm

theorem before_append_of_not_mem {c : Char} {key front : List Char}
    (h : c ∉ front) (cs : List Char) :
    before (c :: key) (front ++ cs) = front ++ before (c :: key) cs := by
  have hkey := List.cons_ne_nil c key
  have hhead := head?_splitAtKey hkey (front ++ cs)
  rw [splitAtKey_append_of_not_mem h, List.head?_modifyHead,
    head?_splitAtKey hkey] at hhead
  exact (Option.some.inj hhead).symm

theorem before_of_not_infix {key cs : List Char} (h : ¬key <:+: cs) :
    before key cs = cs := by
  have hcut : cutAt? key cs = none :=
    Option.not_isSome_iff_eq_none.mp fun hfound => h (contains_iff.mp hfound)
  rw [before, hcut]

end ImportChart.Text
