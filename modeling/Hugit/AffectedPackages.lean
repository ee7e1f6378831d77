import Hugit.PathSegments
import Hugit.Reachability
import Std.Data.ExtTreeMap.Lemmas
import Std.Data.ExtTreeSet.Lemmas

/-! The affected packages of a change: a queue walks the reverse dependencies from the packages whose
path text starts a changed path. -/

namespace Hugit

open Std

structure PackageNode where
  name : String
  path : String
  directDeps : List String

inductive Ecosystem where
  | cargo
  | pnpm
  | turbo
  | unknown (hint : String)
  deriving DecidableEq

structure BuildGraph where
  ecosystem : Ecosystem
  packages : List PackageNode
  rootManifests : List String

inductive FullSetReason where
  | rootManifestEdited (path : String)
  | unknownEcosystem (hint : String)
  deriving DecidableEq

structure AffectedSet where
  packages : ExtTreeSet String
  isFullSet : Bool
  fullSetReason : Option FullSetReason

def AffectedSet.targeted (packages : List String) : AffectedSet :=
  ⟨.ofList packages, false, none⟩

def AffectedSet.full (allPackages : List String) (reason : FullSetReason) : AffectedSet :=
  ⟨.ofList allPackages, true, some reason⟩

def containsText (text sub : String) : Bool :=
  decide (sub.toList <:+: text.toList)

def startsWith (text start : String) : Bool :=
  decide (start.toList <+: text.toList)

namespace BuildGraph

def allPackageNames (graph : BuildGraph) : List String :=
  graph.packages.map PackageNode.name

def editsRoot (graph : BuildGraph) (path : String) : Bool :=
  graph.rootManifests.any fun rootManifest => containsText path rootManifest || containsText rootManifest path

def addDependent (name : String) (rev : ExtTreeMap String (List String)) (dep : String) :
    ExtTreeMap String (List String) :=
  rev.insert dep (rev.getD dep [] ++ [name])

def reverseDeps (graph : BuildGraph) : ExtTreeMap String (List String) :=
  graph.packages.foldl (fun rev pkg => pkg.directDeps.foldl (addDependent pkg.name) rev) ∅

def dependents (graph : BuildGraph) (name : String) : List String :=
  graph.reverseDeps.getD name []

def seeds (graph : BuildGraph) (changedPaths : List String) : List String :=
  (ExtTreeSet.ofList (changedPaths.flatMap fun path =>
    (graph.packages.filter fun pkg => startsWith path pkg.path).map PackageNode.name)).toList

-- The fuel is a bound on the pops of the queue.
def spread (dependents : String → List String) : Nat → List String → List String → List String
  | 0, affected, _ => affected
  | _ + 1, affected, [] => affected
  | fuel + 1, affected, name :: queue =>
    if name ∈ affected then spread dependents fuel affected queue
    else spread dependents fuel (name :: affected)
      (queue ++ (dependents name).filter fun dep => dep ∉ name :: affected)

def dependedOn (graph : BuildGraph) : List String :=
  graph.packages.flatMap PackageNode.directDeps

def affected (graph : BuildGraph) (changedPaths : List String) : AffectedSet :=
  match graph.ecosystem with
  | .unknown hint => .full graph.allPackageNames (.unknownEcosystem hint)
  | _ =>
    match changedPaths.find? graph.editsRoot with
    | some path => .full graph.allPackageNames (.rootManifestEdited path)
    | none =>
      let seeds := graph.seeds changedPaths
      .targeted (spread graph.dependents
        (seeds.length + outstanding graph.dependents graph.dependedOn []) [] seeds)

def DependsOn (graph : BuildGraph) (dep name : String) : Prop :=
  ∃ pkg ∈ graph.packages, dep ∈ pkg.directDeps ∧ pkg.name = name

/-- The package is one that the test selects for a changed path, or depends on one, however far. -/
def DependsOnSelected (graph : BuildGraph) (selects : PackageNode → String → Prop) (changedPaths : List String)
    (name : String) : Prop :=
  ∃ pkg ∈ graph.packages, (∃ path ∈ changedPaths, selects pkg path) ∧
    Relation.ReflTransGen graph.DependsOn pkg.name name

end BuildGraph

def PackageNode.Owns (pkg : PackageNode) (path : String) : Prop :=
  Inside pkg.path.toList path.toList

def PackageNode.StartsPath (pkg : PackageNode) (path : String) : Prop :=
  pkg.path.toList <+: path.toList

namespace BuildGraph

variable {graph : BuildGraph} {changed : List String}

theorem mem_foldl_addDependent {name x y : String} {deps : List String} {rev : ExtTreeMap String (List String)} :
    y ∈ (deps.foldl (addDependent name) rev).getD x [] ↔ y ∈ rev.getD x [] ∨ x ∈ deps ∧ name = y := by
  induction deps generalizing rev with
  | nil => simp
  | cons dep deps ih =>
    rw [List.foldl_cons, ih, addDependent, ExtTreeMap.getD_insert]
    by_cases hx : dep = x
    · subst hx
      simp only [Std.compare_self, if_true, List.mem_append, List.mem_cons, true_or, true_and,
        eq_comm (a := y)]
      tauto
    · rw [if_neg (by simpa using hx)]
      simp only [List.mem_cons, Ne.symm hx, false_or]

theorem mem_dependents {x y : String} : y ∈ graph.dependents x ↔ graph.DependsOn x y := by
  have hfold (packages : List PackageNode) (rev : ExtTreeMap String (List String)) :
      y ∈ (packages.foldl (fun rev pkg => pkg.directDeps.foldl (addDependent pkg.name) rev) rev).getD x [] ↔
        y ∈ rev.getD x [] ∨ ∃ pkg ∈ packages, x ∈ pkg.directDeps ∧ pkg.name = y := by
    induction packages generalizing rev with
    | nil => simp
    | cons pkg packages ih =>
      rw [List.foldl_cons, ih, mem_foldl_addDependent]
      simp only [List.mem_cons, exists_eq_or_imp, or_assoc]
  rw [dependents, reverseDeps, hfold, DependsOn]
  simp

variable {name : String}

theorem mem_seeds :
    name ∈ graph.seeds changed ↔
      ∃ pkg ∈ graph.packages, (∃ path ∈ changed, pkg.StartsPath path) ∧ pkg.name = name := by
  rw [seeds, ExtTreeSet.mem_toList, ExtTreeSet.mem_ofList, List.contains_iff_mem, List.mem_flatMap]
  simp only [List.mem_map, List.mem_filter, startsWith, decide_eq_true_iff, PackageNode.StartsPath]
  constructor
  · rintro ⟨path, hpath, pkg, ⟨hpkg, hstarts⟩, rfl⟩
    exact ⟨pkg, hpkg, ⟨path, hpath, hstarts⟩, rfl⟩
  · rintro ⟨pkg, hpkg, ⟨path, hpath, hstarts⟩, rfl⟩
    exact ⟨path, hpath, pkg, ⟨hpkg, hstarts⟩, rfl⟩

theorem frontier_spread {next : String → List String} {roots seen todo nodes : List String} {fuel : Nat}
    (hnodes : ∀ x, x ∈ nodes ∨ next x = []) (h : Frontier next (fun _ => False) roots seen todo)
    (hfuel : todo.length + outstanding next nodes seen ≤ fuel) :
    Frontier next (fun _ => False) roots (spread next fuel seen todo) [] := by
  induction fuel generalizing seen todo with
  | zero =>
    obtain rfl : todo = [] := List.length_eq_zero_iff.mp (by omega)
    exact h
  | succ fuel ih =>
    cases todo with
    | nil => exact h
    | cons name queue =>
      rw [List.length_cons] at hfuel
      rw [spread]
      split_ifs with hseen
      · exact ih (h.skip (.inl hseen)) (by omega)
      · have hvisit := outstanding_visit (hnodes name) hseen
        have hpushed := List.length_filter_le (fun dep => decide (dep ∉ name :: seen)) (next name)
        refine ih (h.visit (fun y => List.mem_cons) (fun y => List.mem_append_left _) ?_ ?_) ?_
        · intro y hy
          by_cases hnew : y ∈ name :: seen
          · exact .inl hnew
          · exact .inr (.inr (List.mem_append_right _ (List.mem_filter.mpr ⟨hy, by simpa using hnew⟩)))
        · intro y hy
          exact (List.mem_append.mp hy).imp_right fun hfilter => (List.mem_filter.mp hfilter).1
        · rw [List.length_append]
          omega

theorem mem_dependedOn_or (name : String) : name ∈ graph.dependedOn ∨ graph.dependents name = [] := by
  by_cases h : graph.dependents name = []
  · exact .inr h
  · obtain ⟨y, hy⟩ := List.exists_mem_of_ne_nil _ h
    obtain ⟨pkg, hpkg, hdep, -⟩ := mem_dependents.mp hy
    exact .inl (List.mem_flatMap.mpr ⟨pkg, hpkg, hdep⟩)

theorem reaches_seeds_iff : Reaches graph.dependents (graph.seeds changed) name ↔
    graph.DependsOnSelected PackageNode.StartsPath changed name := by
  have hstep : (fun a b => b ∈ graph.dependents a) = graph.DependsOn := by
    funext a b
    exact propext mem_dependents
  rw [Reaches, hstep]
  constructor
  · rintro ⟨seed, hseed, hreach⟩
    obtain ⟨pkg, hpkg, hstarts, rfl⟩ := mem_seeds.mp hseed
    exact ⟨pkg, hpkg, hstarts, hreach⟩
  · rintro ⟨pkg, hpkg, hstarts, hreach⟩
    exact ⟨pkg.name, mem_seeds.mpr ⟨pkg, hpkg, hstarts, rfl⟩, hreach⟩

theorem mem_spread_seeds :
    name ∈ spread graph.dependents ((graph.seeds changed).length +
        outstanding graph.dependents graph.dependedOn []) [] (graph.seeds changed) ↔
      graph.DependsOnSelected PackageNode.StartsPath changed name := by
  have hfrontier := frontier_spread mem_dependedOn_or
    (Frontier.start graph.dependents (fun _ => False) (graph.seeds changed)) (Nat.le_refl _)
  rw [← reaches_seeds_iff]
  constructor
  · exact fun h => hfrontier.reached name (.inl h)
  · exact fun h => (hfrontier.complete (fun _ hfalse => hfalse.elim) h).resolve_right id

/-- The change makes the graph fall back to all its packages. -/
def FallsBack (graph : BuildGraph) (changed : List String) : Prop :=
  (∃ hint, graph.ecosystem = .unknown hint) ∨
    ∃ path ∈ changed, ∃ rootManifest ∈ graph.rootManifests,
      rootManifest.toList <:+: path.toList ∨ path.toList <:+: rootManifest.toList

theorem editsRoot_iff {path : String} : graph.editsRoot path = true ↔ ∃ rootManifest ∈ graph.rootManifests,
    rootManifest.toList <:+: path.toList ∨ path.toList <:+: rootManifest.toList := by
  simp [editsRoot, containsText]

theorem FallsBack.mono {more : List String} (h : graph.FallsBack changed) (hsub : ∀ path ∈ changed, path ∈ more) :
    graph.FallsBack more :=
  h.imp_right fun ⟨path, hpath, hedits⟩ => ⟨path, hsub path hpath, hedits⟩

theorem affected_of_fallsBack (h : graph.FallsBack changed) :
    (graph.affected changed).isFullSet = true ∧
      ∀ name, name ∈ (graph.affected changed).packages ↔ ∃ pkg ∈ graph.packages, pkg.name = name := by
  have hnames (reason : FullSetReason) (name : String) :
      name ∈ (AffectedSet.full graph.allPackageNames reason).packages ↔ ∃ pkg ∈ graph.packages, pkg.name = name := by
    rw [AffectedSet.full, ExtTreeSet.mem_ofList, List.contains_iff_mem, allPackageNames, List.mem_map]
  rw [affected]
  split
  · exact ⟨rfl, hnames _⟩
  · rename_i hknown
    rcases h with ⟨hint, hunknown⟩ | ⟨path, hpath, hedits⟩
    · exact absurd hunknown (hknown hint)
    · have hfind : changed.find? graph.editsRoot ≠ none := fun hnone =>
        List.find?_eq_none.mp hnone path hpath (editsRoot_iff.mpr hedits)
      obtain ⟨edited, hedited⟩ := Option.ne_none_iff_exists'.mp hfind
      rw [hedited]
      exact ⟨rfl, hnames _⟩

theorem affected_of_not_fallsBack (h : ¬ graph.FallsBack changed) :
    (graph.affected changed).isFullSet = false ∧
      ∀ name, name ∈ (graph.affected changed).packages ↔
        graph.DependsOnSelected PackageNode.StartsPath changed name := by
  rw [affected]
  split
  · rename_i hint hunknown
    exact absurd (.inl ⟨hint, hunknown⟩) h
  · have hfind : changed.find? graph.editsRoot = none :=
      List.find?_eq_none.mpr fun path hpath hedits => h (.inr ⟨path, hpath, editsRoot_iff.mp hedits⟩)
    rw [hfind]
    refine ⟨rfl, fun name => ?_⟩
    rw [AffectedSet.targeted, ExtTreeSet.mem_ofList, List.contains_iff_mem]
    exact mem_spread_seeds

theorem DependsOnSelected.step {selects : PackageNode → String → Prop} {dep name : String}
    (h : graph.DependsOnSelected selects changed dep) (hname : graph.DependsOn dep name) :
    graph.DependsOnSelected selects changed name := by
  obtain ⟨pkg, hpkg, hselected, hreach⟩ := h
  exact ⟨pkg, hpkg, hselected, hreach.tail hname⟩

theorem DependsOnSelected.known {selects : PackageNode → String → Prop}
    (h : graph.DependsOnSelected selects changed name) : ∃ pkg ∈ graph.packages, pkg.name = name := by
  obtain ⟨pkg, hpkg, -, hreach⟩ := h
  rcases hreach.cases_tail with rfl | ⟨dep, -, dependent, hdependent, -, hname⟩
  · exact ⟨pkg, hpkg, rfl⟩
  · exact ⟨dependent, hdependent, hname⟩

theorem DependsOnSelected.of_selected {selects selects' : PackageNode → String → Prop}
    (h : ∀ pkg ∈ graph.packages, ∀ path ∈ changed, selects pkg path →
      graph.DependsOnSelected selects' changed pkg.name) (hname : graph.DependsOnSelected selects changed name) :
    graph.DependsOnSelected selects' changed name := by
  obtain ⟨pkg, hpkg, ⟨path, hpath, hselects⟩, hreach⟩ := hname
  obtain ⟨pkg', hpkg', hselected', hreach'⟩ := h pkg hpkg path hpath hselects
  exact ⟨pkg', hpkg', hselected', hreach'.trans hreach⟩

structure ReverseClosure (graph : BuildGraph) (changed : List String) : Prop where
  owners : ∀ pkg ∈ graph.packages, ∀ path ∈ changed, pkg.Owns path →
    pkg.name ∈ (graph.affected changed).packages
  closed : ∀ dep ∈ (graph.affected changed).packages, ∀ name, graph.DependsOn dep name →
    name ∈ (graph.affected changed).packages
  known : ∀ name ∈ (graph.affected changed).packages, ∃ pkg ∈ graph.packages, pkg.name = name
  reached : (graph.affected changed).isFullSet = false → ∀ name ∈ (graph.affected changed).packages,
    graph.DependsOnSelected PackageNode.Owns changed name
  monotone : ∀ more : List String, (∀ path ∈ changed, path ∈ more) →
    ∀ name ∈ (graph.affected changed).packages, name ∈ (graph.affected more).packages

theorem closed_affected {dep name : String} (hdep : dep ∈ (graph.affected changed).packages)
    (hname : graph.DependsOn dep name) : name ∈ (graph.affected changed).packages := by
  by_cases h : graph.FallsBack changed
  · obtain ⟨pkg, hpkg, -, heq⟩ := hname
    exact ((affected_of_fallsBack h).2 name).mpr ⟨pkg, hpkg, heq⟩
  · have hmem := (affected_of_not_fallsBack h).2
    exact (hmem name).mpr (((hmem dep).mp hdep).step hname)

theorem known_affected (hname : name ∈ (graph.affected changed).packages) :
    ∃ pkg ∈ graph.packages, pkg.name = name := by
  by_cases h : graph.FallsBack changed
  · exact ((affected_of_fallsBack h).2 name).mp hname
  · exact (((affected_of_not_fallsBack h).2 name).mp hname).known

theorem affected_mono {more : List String} (hsub : ∀ path ∈ changed, path ∈ more)
    (hname : name ∈ (graph.affected changed).packages) : name ∈ (graph.affected more).packages := by
  by_cases h : graph.FallsBack more
  · exact ((affected_of_fallsBack h).2 name).mpr (known_affected hname)
  · have hfewer : ¬ graph.FallsBack changed := fun hback => h (hback.mono hsub)
    obtain ⟨pkg, hpkg, ⟨path, hpath, hstarts⟩, hreach⟩ := ((affected_of_not_fallsBack hfewer).2 name).mp hname
    exact ((affected_of_not_fallsBack h).2 name).mpr ⟨pkg, hpkg, ⟨path, hsub path hpath, hstarts⟩, hreach⟩

theorem reverseClosure_iff (graph : BuildGraph) (changed : List String) :
    graph.ReverseClosure changed ↔ graph.FallsBack changed ∨
      (∀ pkg ∈ graph.packages, ∀ path ∈ changed, pkg.Owns path →
        graph.DependsOnSelected PackageNode.StartsPath changed pkg.name) ∧
      (∀ pkg ∈ graph.packages, ∀ path ∈ changed, pkg.StartsPath path →
        graph.DependsOnSelected PackageNode.Owns changed pkg.name) := by
  by_cases hback : graph.FallsBack changed
  · obtain ⟨hfull, hmem⟩ := affected_of_fallsBack hback
    refine ⟨fun _ => .inl hback, fun _ => ⟨fun pkg hpkg _ _ _ => (hmem pkg.name).mpr ⟨pkg, hpkg, rfl⟩,
      fun dep hdep name => closed_affected hdep, fun name => known_affected, fun hnot => ?_,
      fun more hsub name => affected_mono hsub⟩⟩
    rw [hfull] at hnot
    cases hnot
  · obtain ⟨hfull, hmem⟩ := affected_of_not_fallsBack hback
    constructor
    · refine fun h => .inr ⟨fun pkg hpkg path hpath howns => ?_, fun pkg hpkg path hpath hstarts => ?_⟩
      · exact (hmem pkg.name).mp (h.owners pkg hpkg path hpath howns)
      · exact h.reached hfull pkg.name ((hmem pkg.name).mpr ⟨pkg, hpkg, ⟨path, hpath, hstarts⟩, .refl⟩)
    · intro h
      obtain ⟨howners, hstarters⟩ := h.resolve_left hback
      refine ⟨fun pkg hpkg path hpath howns => ?_, fun dep hdep name => closed_affected hdep,
        fun name => known_affected, fun _ name hname => ?_, fun more hsub name => affected_mono hsub⟩
      · exact (hmem pkg.name).mpr (howners pkg hpkg path hpath howns)
      · exact ((hmem name).mp hname).of_selected hstarters

def neighbours : BuildGraph where
  ecosystem := .cargo
  packages := [⟨"foo", "crates/foo", []⟩, ⟨"foobar", "crates/foobar", []⟩]
  rootManifests := ["Cargo.toml"]

def dotted : BuildGraph where
  ecosystem := .pnpm
  packages := [⟨"app", "./app", []⟩]
  rootManifests := ["package.json"]

theorem not_fallsBack_of {paths : List String} (hknown : ∀ hint, graph.ecosystem ≠ .unknown hint)
    (hpaths : paths.all (fun path => !graph.editsRoot path) = true) : ¬ graph.FallsBack paths := by
  rintro (⟨hint, hunknown⟩ | ⟨path, hpath, hedits⟩)
  · exact hknown hint hunknown
  · have hnot := List.all_eq_true.mp hpaths path hpath
    rw [editsRoot_iff.mpr hedits] at hnot
    cases hnot

/-- A package is taken for the owner of its neighbour's files, and one written with a leading dot for the
owner of none. -/
theorem neighbour_affected_owner_missed :
    ("foo" ∈ (neighbours.affected ["crates/foobar/src/lib.rs"]).packages ∧
      (neighbours.affected ["crates/foobar/src/lib.rs"]).isFullSet = false ∧
      ¬ neighbours.DependsOnSelected PackageNode.Owns ["crates/foobar/src/lib.rs"] "foo") ∧
    (⟨"app", "./app", []⟩ : PackageNode).Owns "app/main.rs" ∧
      "app" ∉ (dotted.affected ["app/main.rs"]).packages := by
  have hneighbours : ¬ neighbours.FallsBack ["crates/foobar/src/lib.rs"] :=
    not_fallsBack_of (by simp [neighbours]) (by decide +kernel)
  have hdotted : ¬ dotted.FallsBack ["app/main.rs"] := not_fallsBack_of (by simp [dotted]) (by decide +kernel)
  obtain ⟨hfull, hmem⟩ := affected_of_not_fallsBack hneighbours
  refine ⟨⟨(hmem "foo").mpr ?_, hfull, ?_⟩, ?_, fun happ => ?_⟩
  · have hstarts : "crates/foo".toList <+: "crates/foobar/src/lib.rs".toList := by decide +kernel
    exact ⟨⟨"foo", "crates/foo", []⟩, by simp [neighbours], ⟨_, List.mem_singleton_self _, hstarts⟩, .refl⟩
  · rintro ⟨pkg, hpkg, ⟨path, hpath, howns⟩, hreach⟩
    obtain rfl := List.mem_singleton.mp hpath
    rcases hreach.cases_tail with heq | ⟨dep, -, dependent, hdependent, hdep, -⟩
    · obtain rfl : pkg = ⟨"foo", "crates/foo", []⟩ := by
        simp only [neighbours, List.mem_cons, List.not_mem_nil, or_false] at hpkg
        rcases hpkg with rfl | rfl
        · rfl
        · exact absurd heq (by decide)
      obtain ⟨-, rest, hrest, -⟩ := howns
      have hpath : resolved "crates/foobar/src/lib.rs".toList =
          ["crates".toList, "foobar".toList, "src".toList, "lib.rs".toList] := by decide +kernel
      have hdir : resolved "crates/foo".toList = ["crates".toList, "foo".toList] := by decide +kernel
      rw [hpath, hdir] at hrest
      exact absurd (List.cons.inj (List.cons.inj hrest).2).1 (by decide)
    · simp only [neighbours, List.mem_cons, List.not_mem_nil, or_false] at hdependent
      rcases hdependent with rfl | rfl <;> cases hdep
  · exact ⟨by decide +kernel, ["main.rs".toList], by decide +kernel, by decide +kernel⟩
  · obtain ⟨pkg, hpkg, ⟨path, hpath, hstarts⟩, -⟩ := ((affected_of_not_fallsBack hdotted).2 "app").mp happ
    obtain rfl := List.mem_singleton.mp hpath
    obtain rfl := List.mem_singleton.mp hpkg
    have hnot : ¬ "./app".toList <+: "app/main.rs".toList := by decide +kernel
    exact hnot hstarts

end BuildGraph

end Hugit
