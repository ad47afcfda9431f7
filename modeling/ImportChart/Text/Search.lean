/-!
# Finding text in text

A text contains another when it is some run of its characters. The leftmost
occurrence is the one that `cutAt?` finds: it returns what stands before it
and what stands after it, and cutting again and again splits a text at a
separator.
-/

namespace ImportChart.Text

/-! ## Heads and ends -/

/-- What follows `head` in a text that starts with it. -/
def afterHead? (head cs : List Char) : Option (List Char) :=
  if head.isPrefixOf cs then some (cs.drop head.length) else none

theorem afterHead?_eq_some_iff {head cs rest : List Char} :
    afterHead? head cs = some rest ↔ cs = head ++ rest := by
  unfold afterHead?
  constructor
  · intro h
    split at h
    · next hp =>
      obtain ⟨t, rfl⟩ := List.isPrefixOf_iff_prefix.mp hp
      simp at h
      rw [h]
    · cases h
  · rintro rfl
    simp [List.isPrefixOf_iff_prefix]

/-! ## Runs -/

/-- Two texts that start with a run of marked characters, each ended by one
that is not, agree in the run, in what ends it and in what follows. -/
theorem run_append_inj {p : Char → Prop} {c d : Char} (hc : ¬p c) (hd : ¬p d)
    {rest rest' : List Char} : ∀ {run run' : List Char},
    (∀ x ∈ run, p x) → (∀ x ∈ run', p x) →
    run ++ c :: rest = run' ++ d :: rest' →
    run = run' ∧ c = d ∧ rest = rest'
  | [], [], _, _, h => ⟨rfl, List.cons.inj h⟩
  | [], x :: _, _, hrun', h =>
      absurd (hrun' x (List.mem_cons_self ..)) ((List.cons.inj h).1 ▸ hc)
  | x :: _, [], hrun, _, h =>
      absurd (hrun x (List.mem_cons_self ..)) ((List.cons.inj h).1 ▸ hd)
  | x :: run, y :: run', hrun, hrun', h => by
      obtain ⟨rfl, htail⟩ := List.cons.inj h
      obtain ⟨rfl, hend⟩ := run_append_inj hc hd
        (fun z hz => hrun z (List.mem_cons_of_mem _ hz))
        (fun z hz => hrun' z (List.mem_cons_of_mem _ hz)) htail
      exact ⟨rfl, hend⟩

/-! ## The leftmost occurrence -/

/-- The text before and the text after the leftmost occurrence of `key`. -/
def cutAt? (key : List Char) : List Char → Option (List Char × List Char)
  | [] => if key.isEmpty then some ([], []) else none
  | c :: cs =>
    match afterHead? key (c :: cs) with
    | some rest => some ([], rest)
    | none => (cutAt? key cs).map fun cut => (c :: cut.1, cut.2)

def contains (key cs : List Char) : Bool := (cutAt? key cs).isSome

/-- The text before the leftmost occurrence of `key`, or all of it. -/
def before (key cs : List Char) : List Char :=
  match cutAt? key cs with
  | some cut => cut.1
  | none => cs

def removeFirst (key cs : List Char) : List Char :=
  match cutAt? key cs with
  | some cut => cut.1 ++ cut.2
  | none => cs

theorem append_of_cutAt? {key cs front rest : List Char}
    (h : cutAt? key cs = some (front, rest)) : front ++ key ++ rest = cs := by
  induction cs generalizing front rest with
  | nil =>
    simp only [cutAt?] at h
    split at h
    · cases h
      simp_all
    · cases h
  | cons c cs ih =>
    simp only [cutAt?] at h
    split at h
    · next hr =>
      cases h
      exact (afterHead?_eq_some_iff.mp hr).symm
    · obtain ⟨cut, hc, he⟩ := Option.map_eq_some_iff.mp h
      cases he
      simpa using ih hc

theorem cutAt?_isSome_of_append (key front rest : List Char) :
    (cutAt? key (front ++ key ++ rest)).isSome := by
  induction front with
  | nil =>
    cases hk : key ++ rest with
    | nil => simp_all [cutAt?]
    | cons c cs =>
      have : afterHead? key (c :: cs) = some rest := afterHead?_eq_some_iff.mpr hk.symm
      simp [hk, cutAt?, this]
  | cons c front ih =>
    simp only [List.cons_append, cutAt?]
    split
    · rfl
    · simpa using ih

theorem contains_iff {key cs : List Char} : contains key cs = true ↔ key <:+: cs := by
  constructor
  · intro h
    obtain ⟨cut, hc⟩ := Option.isSome_iff_exists.mp h
    exact ⟨cut.1, cut.2, append_of_cutAt? hc⟩
  · rintro ⟨front, rest, rfl⟩
    exact cutAt?_isSome_of_append key front rest

/-! ## Splitting -/

theorem length_lt_of_cutAt? {key cs front rest : List Char} (hk : key ≠ [])
    (h : cutAt? key cs = some (front, rest)) : rest.length < cs.length := by
  have := congrArg List.length (append_of_cutAt? h)
  have : 0 < key.length := List.length_pos_iff.mpr hk
  simp at *
  omega

/-- The pieces between the occurrences of `key` from left to right. An empty
key splits nothing. -/
def splitAtKey (key cs : List Char) : List (List Char) :=
  if hk : key = [] then [cs]
  else
    match hc : cutAt? key cs with
    | none => [cs]
    | some cut =>
      have : cut.2.length < cs.length := length_lt_of_cutAt? hk hc
      cut.1 :: splitAtKey key cut.2
termination_by cs.length

end ImportChart.Text
