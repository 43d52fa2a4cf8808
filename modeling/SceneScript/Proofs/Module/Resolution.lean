import SceneScript.Proofs.Module.Appended
import SceneScript.Proofs.Run.Visits

namespace SceneScript

mutual
def Stmt.dropInner : Stmt → Stmt
  | .branch span condition thenBlock none => .branch span condition (dropAll thenBlock) none
  | .branch span condition thenBlock (some elseBlock) =>
    .branch span condition (dropAll thenBlock) (some (dropAll elseBlock))
  | .whileLoop span condition body => .whileLoop span condition (dropAll body)
  | .forLoop span counter start stop step body =>
    .forLoop span counter start stop step (dropAll body)
  | s => s
/-- A block without its imports, and without those inside the blocks of its statements. -/
def Stmt.dropAll : List Stmt → List Stmt
  | [] => []
  | first :: more =>
    if first.isImport then dropAll more else first.dropInner :: dropAll more
end

def Program.dropInner (p : Program) : Program := ⟨p.statements.map Stmt.dropInner⟩

namespace Stmt

theorem span_dropInner (s : Stmt) : s.dropInner.span = s.span := by
  cases s with
  | branch span condition thenBlock elseBlock =>
    cases elseBlock <;> simp only [dropInner, Stmt.span]
  | _ => simp only [dropInner, Stmt.span]

end Stmt

namespace Run

mutual
/-- The imports inside blocks do nothing. -/
theorem execute_dropInner : ∀ s : Stmt, execute s.dropInner = execute s
  | .branch span condition thenBlock none => by
    rw [Stmt.dropInner, execute, execute, executeAll_dropAll thenBlock]
  | .branch span condition thenBlock (some elseBlock) => by
    rw [Stmt.dropInner, execute, execute, executeAll_dropAll thenBlock,
      executeAll_dropAll elseBlock]
  | .whileLoop span condition body => by
    rw [Stmt.dropInner, execute, execute, executeAll_dropAll body]
  | .forLoop span counter start stop step body => by
    rw [Stmt.dropInner, execute, execute, executeAll_dropAll body]
  | .imports _ => by simp only [Stmt.dropInner]
  | .assign .. => by simp only [Stmt.dropInner]
  | .setProperty .. => by simp only [Stmt.dropInner]
  | .callMethod .. => by simp only [Stmt.dropInner]
  | .print .. => by simp only [Stmt.dropInner]
theorem executeAll_dropAll : ∀ block : List Stmt, executeAll (Stmt.dropAll block) = executeAll block
  | [] => by rw [Stmt.dropAll]
  | first :: more => by
    rw [Stmt.dropAll]
    split
    next himport =>
      obtain ⟨declaration, rfl⟩ : ∃ declaration, first = .imports declaration := by
        cases first <;> first | exact ⟨_, rfl⟩ | cases himport
      rw [executeAll, executeAll_dropAll more]
      rfl
    next =>
      rw [executeAll, executeAll, execute_dropInner first, Stmt.span_dropInner,
        executeAll_dropAll more]
end

end Run

namespace Program

theorem imports_dropInner (p : Program) : p.dropInner.imports = p.imports := by
  rw [imports, imports, dropInner, List.filterMap_map]
  refine List.filterMap_congr fun s _ => ?_
  cases s with
  | branch span condition thenBlock elseBlock => cases elseBlock <;> simp [Stmt.dropInner]
  | _ => simp [Stmt.dropInner]

theorem run_dropInner (p : Program) (modules : Table Value) (store : Store) :
    p.dropInner.run modules store = p.run modules store := by
  have hstep : ∀ (m : Machine) (s : Stmt), m.runStatement s.dropInner = m.runStatement s := by
    intro m s
    rw [Machine.runStatement, Machine.runStatement, Run.execute_dropInner, Stmt.span_dropInner]
  rw [run, run, dropInner, List.foldlM_map]
  simp only [hstep]

end Program
/-- The notice says what is wrong with an import: that there is no such module, that it is part of a
cycle, that its text cannot be had, or that it has no such member. -/
def Notice.Concerns (n : Notice) (i : Import) : Prop :=
  n = .missingModule i.span.line i.source ∨ ∃ cause, n = .error (.placed cause i.span) ∧
    ((∃ chain, cause = .importCycle chain) ∨ (∃ reason, cause = .fetchFailed i.source reason) ∨
      ∃ name ∈ i.names, cause = .undefinedMember i.source name)

namespace Module
variable {setting : Setting} {compile : UnitCompiler} {state after : Loading} {naming : Naming}
  {i : Import} {table bound : Table Value} {notices missing : List Notice}

def introduced (naming : Naming) (i : Import) : List String :=
  if i.names.isEmpty then [i.boundAs.getD (naming.bareName i.source)]
  else (boundNames i).map (·.1)

/-- All names that an import introduces are bound, or something about it is reported. -/
def Resolved (naming : Naming) (scope : Scope) (notices : List Notice) (i : Import) : Prop :=
  (∀ name ∈ introduced naming i, (scope.lookup? name).isSome) ∨ ∃ n ∈ notices, n.Concerns i

def Entered (naming : Naming) (table : Table Value) (notices : List Notice) (i : Import) : Prop :=
  (∀ name ∈ introduced naming i, table.contains name) ∨ ∃ n ∈ notices, n.Concerns i

theorem Entered.mono (h : Entered naming table notices i)
    (htable : ∀ name, table.contains name → bound.contains name)
    (hnotices : ∀ n ∈ notices, n ∈ missing) : Entered naming bound missing i := by
  rcases h with hbound | ⟨n, hn, hconcerns⟩
  · exact .inl fun name hname => htable name (hbound name hname)
  · exact .inr ⟨n, hnotices n hn, hconcerns⟩

theorem contains_insert_of_contains {name other : String} (value : Value)
    (h : table.contains other) : (table.insert name value).contains other := by
  rw [Table.contains, Table.get?_insert]
  split
  · rfl
  · exact h

theorem contains_insert_self (table : Table Value) (name : String) (value : Value) :
    (table.insert name value).contains name := by
  rw [Table.contains, Table.get?_insert_self]
  rfl

theorem snd_mem_names {entry : String × String} (h : entry ∈ boundNames i) : entry.2 ∈ i.names := by
  unfold boundNames at h
  split at h
  next single boundAs hnames hboundAs =>
    rw [List.mem_singleton.1 h, hnames]
    exact List.mem_singleton_self single
  next =>
    obtain ⟨name, hname, rfl⟩ := List.mem_map.1 h
    exact hname

/-- Every export that an import names is bound or reported as missing, and nothing that was bound
before gets lost. -/
theorem bindExports_spec (exports : Exports) (i : Import) (table : Table Value) :
    (∀ name, table.contains name → (bindExports exports i table).1.contains name) ∧
    ∀ entry ∈ boundNames i, (bindExports exports i table).1.contains entry.1 ∨
      .error (.placed (.undefinedMember i.source entry.2) i.span) ∈
        (bindExports exports i table).2 := by
  -- The induction is on the entries that are left, from any table and report so far.
  suffices hall : (∀ name, (table, ([] : List Notice)).1.contains name →
        (bindExports exports i table).1.contains name) ∧
      (∀ n ∈ (table, ([] : List Notice)).2, n ∈ (bindExports exports i table).2) ∧
      ∀ entry ∈ boundNames i, (bindExports exports i table).1.contains entry.1 ∨
        .error (.placed (.undefinedMember i.source entry.2) i.span) ∈
          (bindExports exports i table).2 from ⟨hall.1, hall.2.2⟩
  unfold bindExports
  generalize (table, ([] : List Notice)) = bound
  generalize boundNames i = entries
  induction entries generalizing bound with
  | nil => exact ⟨fun _ h => h, fun _ h => h, fun _ h => nomatch h⟩
  | cons first more ih =>
    rw [List.foldl_cons]
    obtain ⟨table, notices⟩ := bound
    obtain ⟨other, name⟩ := first
    dsimp only
    cases hget : exports.get? name with
    | some value =>
      obtain ⟨hkept, hnotices, hmore⟩ := ih (table.insert other value, notices)
      refine ⟨fun name h => hkept name (contains_insert_of_contains value h), hnotices,
        fun entry h => ?_⟩
      rcases List.mem_cons.1 h with rfl | h
      · exact .inl (hkept other (contains_insert_self table other value))
      · exact hmore entry h
    | none =>
      obtain ⟨hkept, hnotices, hmore⟩ := ih (table, notices ++
        [.error (.placed (.undefinedMember i.source name) i.span)])
      refine ⟨hkept, fun n hn => hnotices n (List.mem_append_left _ hn), fun entry h => ?_⟩
      rcases List.mem_cons.1 h with rfl | h
      · exact .inr (hnotices _ (List.mem_append_right _ (List.mem_singleton_self _)))
      · exact hmore entry h

theorem entered_bindImport (naming : Naming) (store : Store) (i : Import) (id : ModuleId)
    (table : Table Value) :
    (∀ name, table.contains name → (bindImport naming store i id table).1.contains name) ∧
    Entered naming (bindImport naming store i id table).1 (bindImport naming store i id table).2
      i := by
  unfold bindImport
  split
  next hnames =>
    refine ⟨fun name => contains_insert_of_contains _, .inl fun name hname => ?_⟩
    rw [introduced, if_pos hnames, List.mem_singleton] at hname
    subst hname
    exact contains_insert_self table _ _
  next hnames =>
    obtain ⟨hkept, hentries⟩ := bindExports_spec (store.exports id) i table
    refine ⟨hkept, ?_⟩
    by_cases hall : ∀ entry ∈ boundNames i,
        (bindExports (store.exports id) i table).1.contains entry.1
    · refine .inl fun name hname => ?_
      rw [introduced, if_neg hnames] at hname
      obtain ⟨entry, hentry, rfl⟩ := List.mem_map.1 hname
      exact hall entry hentry
    · obtain ⟨entry, hentry, hmissing⟩ : ∃ entry ∈ boundNames i,
          ¬ (bindExports (store.exports id) i table).1.contains entry.1 := by
        simpa only [not_forall, exists_prop] using hall
      rcases hentries entry hentry with hbound | hreported
      · exact absurd hbound hmissing
      · exact .inr ⟨_, hreported, .inr ⟨_, rfl, .inr (.inr ⟨entry.2, snd_mem_names hentry, rfl⟩)⟩⟩

/-- What keeps an import from being located is reported as its fault. -/
theorem concerns_importNotice {d : Diagnostic}
    (h : locate setting i.source i.span state = .ok (.error d, after)) :
    (importNotice d i.span.line).Concerns i := by
  rcases locate_cases h with ⟨-, heq, -⟩ | ⟨_, chain, -, -, heq, -⟩ | ⟨-, -, fetched, hfetch, heq⟩ |
    ⟨_, _, -, -, -, heq, -⟩
  · cases heq
    exact .inl rfl
  · cases heq
    exact .inr ⟨_, rfl, .inl ⟨chain, rfl⟩⟩
  · rcases fetchText_cases hfetch with ⟨_, -, rfl, -⟩ |
      ⟨-, ⟨_, -, rfl, -⟩ | ⟨_, -, -, rfl, -⟩ | ⟨reason, -, -, rfl, -⟩⟩ <;> cases heq
    exact .inr ⟨_, rfl, .inr (.inl ⟨reason, rfl⟩)⟩
  · cases heq

/-- Every import that is resolved is entered into the table or reported. -/
theorem entered_of_resolveImports {imports : List Import} {resolved : Table Value}
    {reported : List Notice}
    (h : resolveImports setting compile imports table notices state =
      .ok ((resolved, reported), after)) :
    (∀ name, table.contains name → resolved.contains name) ∧ (∀ n ∈ notices, n ∈ reported) ∧
      ∀ i ∈ imports, Entered setting.config.naming resolved reported i := by
  -- Later imports bind over earlier ones and report behind them, so what an import entered stays.
  induction imports generalizing table notices state with
  | nil =>
    cases h
    exact ⟨fun _ h => h, fun _ h => h, fun _ h => nomatch h⟩
  | cons i more ih =>
    obtain ⟨outcome, forwarded, between, hload, hrest⟩ := resolveImports_cons_eq_ok h
    rcases hrest with ⟨d, houtcome, hrest⟩ | ⟨id, bound, missing, houtcome, hbind, hrest⟩
    · obtain ⟨hkept, hnotices, hmore⟩ := ih hrest
      have hconcerns : (importNotice d i.span.line).Concerns i := by
        rcases loadModule_eq_ok hload with ⟨_, -, heq, -, -⟩ | ⟨d', -, hlocate, heq, -⟩ |
          ⟨_, _, _, _, _, _, -, -, -, heq, -, -⟩ <;> rw [houtcome] at heq <;> cases heq
        exact concerns_importNotice hlocate
      refine ⟨hkept, fun n hn => hnotices n (by simp [hn]), fun other hother => ?_⟩
      rcases List.mem_cons.1 hother with rfl | hother
      · exact .inr ⟨_, hnotices _ (by simp), hconcerns⟩
      · exact hmore other hother
    · obtain ⟨hkept, hnotices, hmore⟩ := ih hrest
      obtain ⟨hgrown, hentered⟩ := entered_bindImport setting.config.naming between.store i id table
      rw [hbind] at hgrown hentered
      refine ⟨fun name h => hkept name (hgrown name h), fun n hn => hnotices n (by simp [hn]),
        fun other hother => ?_⟩
      rcases List.mem_cons.1 hother with rfl | hother
      · exact hentered.mono hkept fun n hn => hnotices n (by simp [hn])
      · exact hmore other hother

theorem lookup?_start_of_contains {modules : Table Value} (store : Store) {name : String}
    (h : modules.contains name) : ((Machine.start modules store).scope.lookup? name).isSome := by
  obtain ⟨value, hvalue⟩ := Option.isSome_iff_exists.1 h
  have hblocks : Scope.standard.blocks = [] := Scope.blocks_seedAll _ _
  rw [Machine.start, Scope.lookup?_seedAll_toList hblocks hvalue]
  rfl

/-- The imports that a program comes to outside blocks are those of the program. -/
theorem mem_imports_of_visits {p : Program} {modules : Table Value} {store : Store} {k : Machine}
    (h : p.Visits modules store (.imports i) k) (hblocks : k.scope.blocks = []) :
    i ∈ p.imports := by
  obtain ⟨done, s, rest, m, hstatements, -, hvisits⟩ := h
  rcases hvisits.length_blocks with ⟨rfl, -⟩ | hlt
  · rw [Program.imports, hstatements]
    exact List.mem_filterMap.2 ⟨_, List.mem_append_right _ List.mem_cons_self, rfl⟩
  · rw [hblocks] at hlt
    cases hlt

/-- In a compile, all imports outside blocks are resolved before the first statement. Imports inside
blocks are left out: without them the program has the same imports and runs in the same way. So one
that is reached and not resolved stands inside a block. -/
theorem unresolved_imports_stand_in_blocks {depth : Nat} {key source : String} {r : Result}
    {p : Program} (hcompile : compileUnit setting (depth + 1) key source state = .ok (r, after))
    (hprogram : Program.ofSource source = .ok p) :
    p.dropInner.imports = p.imports ∧
    (∀ modules store, p.dropInner.run modules store = p.run modules store) ∧
    ∃ table notices between ran,
      resolveImports setting (compileUnit setting depth) p.imports .empty [] (state.enter key) =
        .ok ((table, notices), between) ∧
      p.run table between.store = .ok ran ∧ r = { ran with notices := notices ++ ran.notices } ∧
      let start := Machine.start table between.store
      let resolved := Resolved setting.config.naming start.scope r.notices
      (∀ i ∈ p.imports, resolved i) ∧
      ((∀ i k, p.Visits table between.store (.imports i) k → resolved i) ↔
        ∀ i k, p.Visits table between.store (.imports i) k → k.scope.blocks ≠ [] → resolved i) := by
  refine ⟨p.imports_dropInner, p.run_dropInner, ?_⟩
  rcases compileWith_eq_ok hcompile with ⟨d, hfailed, -, -⟩ |
    ⟨p', table, notices, between, ran, hparsed, hresolve, hrun, rfl, -⟩
  · rw [hprogram] at hfailed
    cases hfailed
  rw [hprogram] at hparsed
  cases hparsed
  obtain ⟨-, -, hentered⟩ := entered_of_resolveImports hresolve
  have hall : ∀ i ∈ p.imports, Resolved setting.config.naming
      (Machine.start table between.store).scope (notices ++ ran.notices) i := by
    intro i hi
    rcases hentered i hi with hbound | ⟨n, hn, hconcerns⟩
    · exact .inl fun name hname => lookup?_start_of_contains between.store (hbound name hname)
    · exact .inr ⟨n, List.mem_append_left _ hn, hconcerns⟩
  refine ⟨table, notices, between, ran, hresolve, hrun, rfl, hall,
    fun h i k hvisits _ => h i k hvisits, fun h i k hvisits => ?_⟩
  by_cases hblocks : k.scope.blocks = []
  · exact hall i (mem_imports_of_visits hvisits hblocks)
  · exact h i k hvisits hblocks

/-- The variable and the import of a program that is one branch on a variable with one import. -/
def guardedImport? (p : Program) : Option (String × Import) :=
  match p.statements with
  | [.branch _ (.reference _ name []) [.imports declaration] none] => some (name, declaration)
  | _ => none

theorem eq_of_guardedImport? {p : Program} {name : String} {declaration : Import}
    (h : guardedImport? p = some (name, declaration)) :
    ∃ span place,
      p = ⟨[.branch span (.reference place name []) [.imports declaration] none]⟩ := by
  obtain ⟨statements⟩ := p
  unfold guardedImport? at h
  split at h
  next span place name declaration hstatements =>
    dsimp only at hstatements
    cases h
    exact ⟨span, place, congrArg Program.mk hstatements⟩
  next => cases h

/-- A program that imports a module inside a block. The module does not exist, and nothing is said
about it. -/
theorem unresolved_import_of_guarded_import :
    let setting : Setting := ⟨.standard, .ofTable .empty, .empty, .empty⟩
    let state : Loading := ⟨.empty, #[], .empty, []⟩
    ∃ r after p table store ghost k,
      compileUnit setting 1 "main" "if true \x7b import ghost \x7d" state = .ok (r, after) ∧
      Program.ofSource "if true \x7b import ghost \x7d" = .ok p ∧ r.errors = [] ∧
      p.Visits table store (.imports ghost) k ∧ k.scope.blocks ≠ [] ∧
      ¬ Resolved setting.config.naming (Machine.start table store).scope r.notices ghost := by
  intro setting state
  have hread : (Program.ofSource "if true \x7b import ghost \x7d").toOption.map (fun p =>
      (guardedImport? p).map fun found =>
        (found.1, found.2.names, found.2.source, found.2.boundAs)) =
        some (some ("true", [], "ghost", none)) := by decide +kernel
  obtain ⟨p, hprogram, hfound⟩ := exists_of_toOption_map hread
  obtain ⟨⟨name, ghost⟩, hguarded, hghost⟩ := Option.map_eq_some_iff.1 hfound
  obtain ⟨rfl, hnames, hsource, hbound⟩ : name = "true" ∧ ghost.names = [] ∧
      ghost.source = "ghost" ∧ ghost.boundAs = none := by simpa using hghost
  obtain ⟨span, place, rfl⟩ := eq_of_guardedImport? hguarded
  have hseen : (compileUnit setting 1 "main" "if true \x7b import ghost \x7d" state).toOption.map
      (fun x => x.1.errors) = some [] := by decide +kernel
  obtain ⟨⟨r, after⟩, hcompile, herrors⟩ := exists_of_toOption_map hseen
  have hnotices : r.notices = [] := List.map_eq_nil_iff.1 herrors
  obtain ⟨-, -, table, notices, between, ran, hresolve, -, -, -, -⟩ :=
    unresolved_imports_stand_in_blocks hcompile hprogram
  -- There is nothing to resolve outside the block.
  have hstart : (table, notices, between) = (.empty, [], state.enter "main") := by
    cases hresolve
    rfl
  cases hstart
  let start := Machine.start .empty .empty
  have htrue : (start.scope.lookup? "true").map Value.isTrue = some true := by decide +kernel
  obtain ⟨value, hvalue, htest⟩ := Option.map_eq_some_iff.1 htrue
  have htested : Run.placing span (Run.evaluate (.reference place "true" [])) start =
      (.ok value, start) := by
    have hlookup : Run.lookup "true" start = (.ok value, start) := by
      rw [Run.lookup, Run.bind_apply_of_ok _ (Run.lookup?_apply "true" start), hvalue]
      rfl
    rw [Run.placing_apply, Run.evaluate, Run.bind_apply, Run.placing_apply, hlookup]
    rfl
  have hvisits : Program.Visits ⟨[.branch span (.reference place "true" []) [.imports ghost] none]⟩
      .empty .empty (.imports ghost) start.entered :=
    ⟨[], _, [], start, rfl, rfl,
      Run.VisitsIn.inside (.thenBlock htested htest) (.first (.here _ _))⟩
  refine ⟨r, after, _, .empty, .empty, ghost, start.entered, hcompile, hprogram, herrors, hvisits,
    List.cons_ne_nil _ _, ?_⟩
  have hunbound : (start.scope.lookup? "ghost").isSome = false := by decide +kernel
  have hintroduced : introduced .standard ghost = ["ghost"] := by
    have hempty : ghost.names.isEmpty = true := by rw [hnames, List.isEmpty_nil]
    rw [introduced, if_pos hempty, hbound, hsource]
    decide +kernel
  rintro (hbound | ⟨n, hn, -⟩)
  · have hlookup := hbound "ghost" (hintroduced ▸ List.mem_singleton_self "ghost")
    rw [hunbound] at hlookup
    cases hlookup
  · rw [hnotices] at hn
    cases hn

end Module
end SceneScript
