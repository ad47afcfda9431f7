import ImportChart.Tree.Content

/-!
# Walks of paths

A path is walked component by component, and each link on the way is walked in
its place. `Reaches` says the same as a derivation, one rule for each kind of
component, and keeps account of the links that may still be followed. Behind
the components that reach a folder a walk goes on from there
(`Reaches.walk_append`), and every walk that ends in a folder has such a
derivation (`exists_reaches_of_walk`).

So a folder has two names that mean the same: the path under which it was met,
and its location together with the links that are left (`Leads`). What is found
under an entry's name from the one is found from the other
(`Leads.place_join`), however the path is spelled.
-/

namespace ImportChart

namespace FileNode

/-! ## Entries and locations -/

theorem lookup_eq_some_iff {name : String} {node : FileNode} :
    ∀ {entries : List (String × FileNode)}, (entries.map (·.1)).Nodup →
      (entries.lookup name = some node ↔ (name, node) ∈ entries)
  | [], _ => by simp
  | (other, found) :: entries, h => by
      rw [List.map_cons, List.nodup_cons] at h
      rw [List.mem_cons, Prod.mk.injEq]
      by_cases heq : name = other
      · subst heq
        rw [List.lookup_cons_self, Option.some.injEq]
        constructor
        · rintro rfl
          exact Or.inl ⟨rfl, rfl⟩
        · rintro (⟨-, rfl⟩ | hmem)
          · rfl
          · exact absurd (List.mem_map_of_mem hmem) h.1
      · have hbeq : (name == other) = false := beq_eq_false_iff_ne.mpr heq
        rw [List.lookup_cons, hbeq]
        simp only [lookup_eq_some_iff h.2, heq, false_and, false_or]

theorem at?_append_singleton (name : String) :
    ∀ (names : List String) (node : FileNode),
    at? (names ++ [name]) node = (at? names node).bind (child? name)
  | [], node => by
      rw [List.nil_append, at?, at?, Option.bind_some]
      cases node.child? name with
      | none => rfl
      | some below => rw [Option.bind_some, at?]
  | first :: names, node => by
      rw [List.cons_append, at?, at?, Option.bind_assoc]
      exact congrArg _
        (funext fun below => at?_append_singleton name names below)

theorem WellFormed.nodup {entries : List (String × FileNode)}
    (h : WellFormed (.folder entries)) :
    (entries.map (·.1)).Nodup := by
  cases h with
  | folder hnodup _ _ => exact hnodup

theorem WellFormed.isEntryName {entries : List (String × FileNode)}
    {entry : String × FileNode} (h : WellFormed (.folder entries))
    (hentry : entry ∈ entries) : IsEntryName entry.1 := by
  cases h with
  | folder _ hnames _ => exact hnames entry hentry

theorem WellFormed.of_mem {entries : List (String × FileNode)}
    {entry : String × FileNode} (h : WellFormed (.folder entries))
    (hentry : entry ∈ entries) : WellFormed entry.2 := by
  cases h with
  | folder _ _ hbelow => exact hbelow entry hentry

theorem WellFormed.at? : ∀ {location : List String} {node found : FileNode},
    WellFormed node → FileNode.at? location node = some found →
    WellFormed found
  | [], node, found, h, hfound => by
      cases hfound
      exact h
  | name :: location, .file _, found, _, hfound => by cases hfound
  | name :: location, .link _, found, _, hfound => by cases hfound
  | name :: location, .folder entries, found, h, hfound => by
      obtain ⟨below, hbelow, hrest⟩ := Option.bind_eq_some_iff.mp hfound
      have hentry := (lookup_eq_some_iff h.nodup).mp hbelow
      exact WellFormed.at? (h.of_mem hentry) hrest

end FileNode

namespace FileTree

variable {tree : FileTree}

/-! ## Walks one component at a time -/

/-- The component names an entry of the folder in which the walk is. -/
def IsStep (name : String) : Prop := name ≠ "" ∧ name ≠ "." ∧ name ≠ ".."

/-- What a component names in the folder at a location. -/
def named? (tree : FileTree) (here : List String) (name : String) :
    Option FileNode :=
  (tree.top.at? here).bind (·.child? name)

/-- Where the walk of a link starts that is met in the folder at `here`. -/
def linkStart (here : List String) (target : String) : List String :=
  if target.toList.head? == some '/' then [] else here

theorem walk_nil (links : Nat) (here : List String) :
    tree.walk .reading links here [] = .ok (.folder here) := by
  cases links <;> rfl

theorem walk_stay {name : String} (h : name = "" ∨ name = ".") (links : Nat)
    (here rest : List String) :
    tree.walk .reading links here (name :: rest)
      = tree.walk .reading links here rest := by
  have hstay : (name == "" || name == ".") = true := by
    rcases h with rfl | rfl <;> rfl
  cases links with
  | zero => rw [walk, walkTo, if_pos hstay]
  | succ links => rw [walk, walkTo, if_pos hstay]

theorem walk_up (links : Nat) (here rest : List String) :
    tree.walk .reading links here (".." :: rest)
      = tree.walk .reading links here.dropLast rest := by
  cases links with
  | zero => rw [walk, walkTo, if_neg (by decide), if_pos (by decide)]
  | succ links => rw [walk, walkTo, if_neg (by decide), if_pos (by decide)]

/-- A component that is a step is looked up, and the walk goes on by what it
names. -/
theorem walk_step {name : String} (h : IsStep name) (links : Nat)
    (here rest : List String) :
    tree.walk .reading links here (name :: rest)
      = match tree.named? here name, links with
        | none, _ =>
            if rest == [] then .ok (.vacant (here ++ [name]))
            else .error .notFound
        | some (.file _), _ =>
            if rest == [] then .ok (.file (here ++ [name]))
            else .error .notFolder
        | some (.folder _), links =>
            tree.walk .reading links (here ++ [name]) rest
        | some (.link _), 0 => .error .tooManyLinks
        | some (.link target), links + 1 =>
            tree.walk .reading links (linkStart here target)
              (components target ++ rest) := by
  obtain ⟨hempty, hdot, hdots⟩ := h
  have hstay : ¬(name == "" || name == ".") = true := by simp [hempty, hdot]
  have hup : ¬(name == "..") = true := by simp [hdots]
  unfold named?
  cases links with
  | zero =>
      rw [walk, walkTo, if_neg hstay, if_neg hup, if_neg (by simp)]
      generalize (tree.top.at? here).bind (·.child? name) = found
      rcases found with _ | _ | _ | _ <;> rfl
  | succ links =>
      rw [walk, walkTo, if_neg hstay, if_neg hup, if_neg (by simp)]
      generalize (tree.top.at? here).bind (·.child? name) = found
      rcases found with _ | _ | _ | _ <;> rfl

theorem walk_down {here : List String} {name : String}
    {entries : List (String × FileNode)} (hstep : IsStep name)
    (hentry : tree.named? here name = some (.folder entries)) (links : Nat)
    (rest : List String) :
    tree.walk .reading links here (name :: rest)
      = tree.walk .reading links (here ++ [name]) rest := by
  rw [walk_step hstep, hentry]

theorem walk_follow {here : List String} {name target : String}
    (hstep : IsStep name) (hentry : tree.named? here name = some (.link target))
    (links : Nat) (rest : List String) :
    tree.walk .reading (links + 1) here (name :: rest)
      = tree.walk .reading links (linkStart here target)
        (components target ++ rest) := by
  rw [walk_step hstep, hentry]

/-! ## Walks as derivations -/

/-- The components reach a folder:
`Reaches tree links here components left location` when the walk from `here`
ends in the folder at `location` and, of the `links` links that may be followed,
`left` are left. -/
inductive Reaches (tree : FileTree) :
    Nat → List String → List String → Nat → List String → Prop
  | done {links : Nat} {here : List String} :
      Reaches tree links here [] links here
  | stay {links left : Nat} {here rest location : List String} {name : String} :
      name = "" ∨ name = "." → Reaches tree links here rest left location →
      Reaches tree links here (name :: rest) left location
  | up {links left : Nat} {here rest location : List String} :
      Reaches tree links here.dropLast rest left location →
      Reaches tree links here (".." :: rest) left location
  | down {links left : Nat} {here rest location : List String} {name : String}
      {entries : List (String × FileNode)} : IsStep name →
      tree.named? here name = some (.folder entries) →
      Reaches tree links (here ++ [name]) rest left location →
      Reaches tree links here (name :: rest) left location
  | follow {links left : Nat} {here rest location : List String}
      {name target : String} :
      IsStep name → tree.named? here name = some (.link target) →
      Reaches tree links (linkStart here target)
        (components target ++ rest) left location →
      Reaches tree (links + 1) here (name :: rest) left location

/-- Behind what reaches a folder a walk goes on from that folder. -/
theorem Reaches.walk_append {links left : Nat}
    {here names location : List String}
    (h : Reaches tree links here names left location) (more : List String) :
    tree.walk .reading links here (names ++ more)
      = tree.walk .reading left location more := by
  induction h with
  | done => rfl
  | stay hname _ ih => rw [List.cons_append, walk_stay hname, ih]
  | up _ ih => rw [List.cons_append, walk_up, ih]
  | down hstep hentry _ ih => rw [List.cons_append, walk_down hstep hentry, ih]
  | follow hstep hentry _ ih =>
      rw [List.cons_append, walk_follow hstep hentry, ← List.append_assoc, ih]

theorem Reaches.append {links between left : Nat}
    {here names there more location : List String}
    (h : Reaches tree links here names between there)
    (hmore : Reaches tree between there more left location) :
    Reaches tree links here (names ++ more) left location := by
  induction h with
  | done => exact hmore
  | stay hname _ ih => exact Reaches.stay hname (ih hmore)
  | up _ ih => exact Reaches.up (ih hmore)
  | down hstep hentry _ ih => exact Reaches.down hstep hentry (ih hmore)
  | follow hstep hentry _ ih =>
      rw [List.cons_append]
      refine Reaches.follow hstep hentry ?_
      rw [← List.append_assoc]
      exact ih hmore

/-- A slash at the end of what reaches a folder makes no difference. -/
theorem Reaches.of_append_empty {links left : Nat}
    {here names location : List String}
    (h : Reaches tree links here (names ++ [""]) left location) :
    Reaches tree links here names left location := by
  generalize hall : names ++ [""] = all at h
  induction h generalizing names with
  | done => simp at hall
  | stay hname hrest ih =>
      rcases List.append_eq_cons_iff.mp hall with ⟨rfl, heq⟩ | ⟨names, rfl, heq⟩
      · obtain ⟨-, rfl⟩ := List.cons.inj heq
        exact hrest
      · exact Reaches.stay hname (ih heq.symm)
  | up _ ih =>
      rcases List.append_eq_cons_iff.mp hall with ⟨rfl, heq⟩ | ⟨names, rfl, heq⟩
      · exact absurd (List.cons.inj heq).1 (by decide)
      · exact Reaches.up (ih heq.symm)
  | down hstep hentry _ ih =>
      rcases List.append_eq_cons_iff.mp hall with ⟨rfl, heq⟩ | ⟨names, rfl, heq⟩
      · exact absurd (List.cons.inj heq).1 hstep.1.symm
      · exact Reaches.down hstep hentry (ih heq.symm)
  | follow hstep hentry _ ih =>
      rcases List.append_eq_cons_iff.mp hall with ⟨rfl, heq⟩ | ⟨names, rfl, heq⟩
      · exact absurd (List.cons.inj heq).1 hstep.1.symm
      · exact Reaches.follow hstep hentry (ih (by rw [heq, List.append_assoc]))

theorem isStep_or (name : String) :
    (name = "" ∨ name = ".") ∨ name = ".." ∨ IsStep name := by
  by_cases hstay : name = "" ∨ name = "."
  · exact Or.inl hstay
  · by_cases hup : name = ".."
    · exact Or.inr (Or.inl hup)
    · exact Or.inr
        (Or.inr ⟨fun h => hstay (Or.inl h), fun h => hstay (Or.inr h), hup⟩)

/-- Every walk that ends in a folder reaches it. The induction is on the links,
and between two links on the components. -/
theorem exists_reaches_of_walk {location : List String} :
    ∀ (links : Nat) (here names : List String),
    tree.walk .reading links here names = .ok (.folder location) →
      ∃ left, Reaches tree links here names left location
  | links, here, [], h => by
      rw [walk_nil] at h
      cases h
      exact ⟨links, Reaches.done⟩
  | links, here, name :: rest, h => by
      rcases isStep_or name with hname | rfl | hstep
      · rw [walk_stay hname] at h
        obtain ⟨left, hrest⟩ := exists_reaches_of_walk links here rest h
        exact ⟨left, Reaches.stay hname hrest⟩
      · rw [walk_up] at h
        obtain ⟨left, hrest⟩ :=
          exists_reaches_of_walk links here.dropLast rest h
        exact ⟨left, Reaches.up hrest⟩
      · rcases hentry : tree.named? here name with _ | _ | entries | target
        · simp only [walk_step hstep, hentry] at h
          split at h <;> cases h
        · simp only [walk_step hstep, hentry] at h
          split at h <;> cases h
        · rw [walk_down hstep hentry] at h
          obtain ⟨left, hrest⟩ :=
            exists_reaches_of_walk links (here ++ [name]) rest h
          exact ⟨left, Reaches.down hstep hentry hrest⟩
        · cases links with
          | zero =>
              rw [walk_step hstep, hentry] at h
              cases h
          | succ links =>
              rw [walk_follow hstep hentry] at h
              obtain ⟨left, hrest⟩ := exists_reaches_of_walk links _ _ h
              exact ⟨left, Reaches.follow hstep hentry hrest⟩
termination_by links _ names => (links, names.length)

/-! ## Folders by path and by location -/

/-- A path leads to the folder at a location; behind it so many links may still
be followed. -/
structure Leads (tree : FileTree) (path : String) (links : Nat)
    (location : List String) : Prop where
  nonempty : path ≠ ""
  reaches :
    Reaches tree maxLinks (tree.start path) (components path) links location

theorem start_append {path : String} (hpath : path ≠ "") (more : String) :
    tree.start (path ++ more) = tree.start path := by
  have hne : path.toList ≠ [] := fun h => hpath (String.toList_eq_nil_iff.mp h)
  obtain ⟨c, cs, hcs⟩ := List.exists_cons_of_ne_nil hne
  simp [start, hcs]

theorem exists_leads_of_place {path : String} {location : List String}
    (h : tree.place .reading path = .ok (.folder location)) :
    ∃ links, Leads tree path links location := by
  unfold place at h
  split at h
  · cases h
  · next hne =>
      obtain ⟨links, hreaches⟩ := exists_reaches_of_walk _ _ _ h
      exact ⟨links, fun heq => hne (beq_iff_eq.mpr heq), hreaches⟩

theorem Leads.place {path : String} {links : Nat} {location : List String}
    (h : Leads tree path links location) :
    tree.place .reading path = .ok (.folder location) := by
  have hne : ¬(path == "") = true := by simp [h.nonempty]
  have hwalk := h.reaches.walk_append []
  rw [List.append_nil, walk_nil] at hwalk
  rw [FileTree.place, if_neg hne, hwalk]

theorem exists_leads_of_entries? {path : String}
    {entries : List (String × FileNode)}
    (h : tree.entries? path = some entries) :
    ∃ location links, Leads tree path links location
      ∧ tree.top.at? location = some (.folder entries) := by
  unfold entries? at h
  split at h
  · next location hplace =>
      split at h
      · next hat =>
          cases h
          obtain ⟨links, hleads⟩ := exists_leads_of_place hplace
          exact ⟨location, links, hleads, hat⟩
      · cases h
  · cases h

theorem Leads.entries? {path : String} {links : Nat} {location : List String}
    {entries : List (String × FileNode)} (h : Leads tree path links location)
    (hat : tree.top.at? location = some (.folder entries)) :
    tree.entries? path = some entries := by
  rw [FileTree.entries?, h.place]
  simp only [hat]

/-! ## Paths of entries -/

/-- The components of an entry's path are those of the folder's path and the
name, and an empty component between them if a slash ends the folder's path. -/
theorem components_join {path name : String} (hpath : path ≠ "")
    (hname : '/' ∉ name.toList) :
    ∃ front, components (join path name) = front ++ [name]
      ∧ (components path = front ∨ components path = front ++ [""]) := by
  have hsplit : name.toList.splitOn '/' = [name.toList] :=
    List.splitOn_eq_singleton hname
  unfold join components
  by_cases hslash : path.toList.getLast? = some '/'
  · obtain ⟨front, hfront⟩ := List.getLast?_eq_some_iff.mp hslash
    refine ⟨(front.splitOn '/').map String.ofList, ?_, Or.inr ?_⟩
    · rw [if_pos (by simp [hslash]), String.toList_append, hfront,
        List.append_assoc, List.singleton_append, List.splitOn_append_cons_self,
        hsplit]
      simp
    · rw [hfront, List.splitOn_append_cons_self]
      simp
  · refine ⟨(path.toList.splitOn '/').map String.ofList, ?_, Or.inl rfl⟩
    have htext : (path ++ "/" ++ name).toList
        = path.toList ++ '/' :: name.toList := by
      simp
    rw [if_neg (by simp [hpath, hslash]), htext, List.splitOn_append_cons_self,
      hsplit]
    simp

theorem start_join {path : String} (hpath : path ≠ "") (name : String) :
    tree.start (join path name) = tree.start path := by
  unfold join
  split
  · exact start_append hpath name
  · rw [String.append_assoc]
    exact start_append hpath ("/" ++ name)

theorem join_ne_empty {path : String} (hpath : path ≠ "") (name : String) :
    join path name ≠ "" := by
  unfold join
  split <;> simp [hpath]

theorem Leads.reaches_front {path name : String} {links : Nat}
    {location : List String} (h : Leads tree path links location)
    (hname : '/' ∉ name.toList) :
    ∃ front, components (join path name) = front ++ [name]
      ∧ Reaches tree maxLinks (tree.start path) front links location := by
  obtain ⟨front, hjoin, hpath | hpath⟩ := components_join h.nonempty hname
  · exact ⟨front, hjoin, hpath ▸ h.reaches⟩
  · refine ⟨front, hjoin, Reaches.of_append_empty ?_⟩
    rw [← hpath]
    exact h.reaches

/-- Where the path of an entry leads is where the walk of its name leads from
the location of the folder. -/
theorem Leads.place_join {path name : String} {links : Nat}
    {location : List String} (h : Leads tree path links location)
    (hname : '/' ∉ name.toList) :
    tree.place .reading (join path name)
      = tree.walk .reading links location [name] := by
  obtain ⟨front, hjoin, hreaches⟩ := h.reaches_front hname
  have hne : ¬(join path name == "") = true := by
    simp [join_ne_empty h.nonempty]
  rw [FileTree.place, if_neg hne, start_join h.nonempty, hjoin,
    hreaches.walk_append]

/-- The path of a folder in a folder leads to its location. -/
theorem Leads.join {path name : String} {links : Nat} {location : List String}
    {entries : List (String × FileNode)} (h : Leads tree path links location)
    (hname : FileNode.IsEntryName name)
    (hentry : tree.named? location name = some (.folder entries)) :
    Leads tree (FileTree.join path name) links (location ++ [name]) := by
  obtain ⟨hempty, hdot, hdots, hslash⟩ := hname
  obtain ⟨front, hjoin, hreaches⟩ := h.reaches_front hslash
  refine ⟨join_ne_empty h.nonempty name, ?_⟩
  rw [start_join h.nonempty, hjoin]
  exact hreaches.append (Reaches.down ⟨hempty, hdot, hdots⟩ hentry Reaches.done)

/-! ## Other spellings of a path -/

theorem Leads.append_slash {path : String} {links : Nat}
    {location : List String} (h : Leads tree path links location) :
    Leads tree (path ++ "/") links location := by
  have hcomponents : components (path ++ "/") = components path ++ [""] := by
    simp [components, List.splitOn_append_cons_self]
  have hstart : tree.start (path ++ "/") = tree.start path :=
    start_append h.nonempty "/"
  refine ⟨by simp, ?_⟩
  rw [hstart, hcomponents]
  exact h.reaches.append (Reaches.stay (Or.inl rfl) Reaches.done)

theorem Leads.append_dot {path : String} {links : Nat} {location : List String}
    (h : Leads tree path links location) :
    Leads tree (path ++ "/.") links location := by
  have hcomponents : components (path ++ "/.") = components path ++ ["."] := by
    have htext : (path ++ "/.").toList = path.toList ++ '/' :: ['.'] := by simp
    rw [components, htext, List.splitOn_append_cons_self, List.map_append]
    rfl
  have hstart : tree.start (path ++ "/.") = tree.start path :=
    start_append h.nonempty "/."
  refine ⟨by simp, ?_⟩
  rw [hstart, hcomponents]
  exact h.reaches.append (Reaches.stay (Or.inr rfl) Reaches.done)

theorem Leads.dot_append {path : String} {links : Nat} {location : List String}
    (h : Leads tree path links location)
    (hrelative : path.toList.head? ≠ some '/') :
    Leads tree ("./" ++ path) links location := by
  have hcomponents : components ("./" ++ path) = "." :: components path := by
    have htext : ("./" ++ path).toList = ['.'] ++ '/' :: path.toList := by simp
    rw [components, htext, List.splitOn_append_cons_self, List.map_append]
    rfl
  have hstart : tree.start ("./" ++ path) = tree.start path := by
    simp [start, hrelative]
  refine ⟨by simp, ?_⟩
  rw [hstart, hcomponents]
  exact Reaches.stay (Or.inr rfl) h.reaches

/-- `Respelled path path'`: the second path is the first one with slashes and
dots about it that make no difference. -/
inductive Respelled (path : String) : String → Prop
  | same : Respelled path path
  | slash {path' : String} : Respelled path path' → Respelled path (path' ++ "/")
  | dot {path' : String} : Respelled path path' → Respelled path (path' ++ "/.")
  /-- Only a path from the working folder can stand behind a dot. -/
  | here {path' : String} : Respelled path path' →
      path'.toList.head? ≠ some '/' → Respelled path ("./" ++ path')

theorem Leads.respelled {path path' : String} {links : Nat}
    {location : List String} (h : Leads tree path links location)
    (hrespelled : Respelled path path') : Leads tree path' links location := by
  induction hrespelled with
  | same => exact h
  | slash _ ih => exact ih.append_slash
  | dot _ ih => exact ih.append_dot
  | here _ hrelative ih => exact ih.dot_append hrelative

end FileTree

end ImportChart
