import Glossary.Compilation
import Glossary.Proofs.Fallible
import Glossary.Proofs.WellFormedSchemas

/-!
What keeps the artifacts of a term from being generated: a structural fault, or a primitive type
without an SQL type. The range rules that are built in can always be filled in.
-/

namespace Glossary

open Fallible

namespace Text.Template

theorem arrangeText_nil (cs : List Char) : arrangeText [] cs = .ok cs := by
  have h : arrangeText [] cs = .ok (pad '<' ' ' 0 cs) := rfl
  rw [h]
  simp [pad]

theorem pieces_text {cs : List Char} (h : ∀ c ∈ cs, c ≠ '{' ∧ c ≠ '}') :
    pieces .text cs = cs.map .char := by
  induction cs with
  | nil => rfl
  | cons c cs ih =>
      obtain ⟨⟨hopen, hclose⟩, hrest⟩ := List.forall_mem_cons.mp h
      have hstep : step .text c = (some .text, [.char c]) := by
        unfold step
        split <;> simp_all
      rw [pieces, hstep]
      simp [ih hrest]

theorem foldlM_char {ε : Type} {f : List Char → Piece → Except ε (List Char)}
    (hf : ∀ done c, f done (.char c) = .ok (done ++ [c])) (cs done : List Char) :
    (cs.map Piece.char).foldlM f done = .ok (done ++ cs) := by
  induction cs generalizing done with
  | nil => simp [pure, Except.pure]
  | cons c cs ih =>
      rw [List.map_cons]
      refine foldlM_cons_eq_ok_iff.mpr ⟨done ++ [c], hf done c, ?_⟩
      rw [ih, List.append_assoc, List.singleton_append]

theorem fill_column {template : String} {rest : List Char}
    (htemplate : template.toList = "\x7bcolumn\x7d".toList ++ rest)
    (h : ∀ c ∈ rest, c ≠ '{' ∧ c ≠ '}') (value : String) :
    fill "column" value template = .ok (String.ofList (value.toList ++ rest)) := by
  have hpieces : pieces .text ("\x7bcolumn\x7d".toList ++ rest) =
      .field ⟨"column".toList, none, []⟩ :: pieces .text rest := rfl
  have hlookup : lookup "column" value.toList "column".toList = .ok (.text value.toList) := rfl
  unfold fill fillWithin
  rw [htemplate, hpieces, pieces_text h, List.foldlM_cons]
  simp only [hlookup, convert, bind, Except.bind, List.contains_nil, arrange, arrangeText_nil,
    Bool.false_eq_true, if_false, pure, Except.pure, List.nil_append]
  rw [foldlM_char fun _ _ => rfl]
  rfl

end Text.Template

namespace Sql

/-- The errors that a user is told: a type without an SQL type, and a structural fault. -/
def SqlError.IsReported : SqlError → Prop
  | unmapped _ _ => True
  | faulty _ _ => True
  | _ => False

/-- The generation fails with a reported error or not at all. -/
def Reports {α : Type} (x : Except SqlError α) : Prop :=
  ∀ e, x = .error e → e.IsReported

section Reports

variable {α β : Type}

theorem reports_ok (a : α) : Reports (.ok a) := by
  intro e he
  cases he

theorem Reports.bind {x : Except SqlError α} {f : α → Except SqlError β} (hx : Reports x)
    (hf : ∀ a, x = .ok a → Reports (f a)) : Reports (x >>= f) := by
  intro e he
  rcases bind_eq_error_iff.mp he with he | ⟨a, ha, he⟩
  · exact hx e he
  · exact hf a ha e he

theorem reports_mapM {f : α → Except SqlError β} (hf : ∀ a, Reports (f a)) (as : List α) :
    Reports (as.mapM f) := by
  induction as with
  | nil => exact reports_ok []
  | cons a as ih =>
      rw [List.mapM_cons]
      exact (hf a).bind fun b _ => ih.bind fun bs _ => reports_ok (b :: bs)

theorem reports_forM {f : α → Except SqlError Unit} (hf : ∀ a, Reports (f a)) (as : List α) :
    Reports (as.forM f) := by
  induction as with
  | nil => exact reports_ok ()
  | cons a as ih => exact (hf a).bind fun _ _ => ih

end Reports

theorem reports_requireSound (name : String) (issues : List Issue) :
    Reports (requireSound name issues) := by
  intro e he
  unfold requireSound at he
  split at he
  · cases he
  · obtain rfl := Except.error.inj he
    trivial

theorem reports_sqlType (types : TypeMap) (primitive location : String) :
    Reports (types.sqlType primitive location) := by
  intro e he
  unfold TypeMap.sqlType at he
  split at he
  · cases he
  · obtain rfl := Except.error.inj he
    trivial

theorem reports_requireTypes (types : TypeMap) (name : String) (columns : List Column) :
    Reports (requireTypes types name columns) :=
  reports_forM (fun _ => (reports_sqlType types _ _).bind fun _ _ => reports_ok ()) columns

theorem sqlType_eq_ok_iff {types : TypeMap} {primitive location sqlType : String} :
    types.sqlType primitive location = .ok sqlType ↔ types.find? primitive = some sqlType := by
  unfold TypeMap.sqlType
  split
  · rename_i found hfound
    rw [hfound]
    exact ⟨fun h => congrArg some (Except.ok.inj h), fun h => congrArg _ (Option.some.inj h)⟩
  · rename_i hnone
    simp [hnone]

theorem exists_assertion_builtIn {primitive : String} {rule : RangeRule}
    (hrule : rule ∈ RangeTable.builtIn.rules primitive) (object : String) (column : Column) :
    ∃ a, RangeTable.assertion object column rule = .ok a := by
  have hviolation : ∃ rest, rule.violation.toList = "\x7bcolumn\x7d".toList ++ rest ∧
      ∀ x ∈ rest, x ≠ '{' ∧ x ≠ '}' := by
    simp only [RangeTable.rules, RangeTable.builtIn, List.lookup_cons, List.lookup_nil] at hrule
    split at hrule
    · obtain rfl := List.mem_singleton.mp hrule
      exact ⟨" > CURRENT_DATE".toList, rfl, by simp⟩
    · split at hrule
      · obtain rfl := List.mem_singleton.mp hrule
        exact ⟨" > CURRENT_TIMESTAMP".toList, rfl, by simp⟩
      · cases hrule
  obtain ⟨rest, htemplate, hrest⟩ := hviolation
  unfold RangeTable.assertion
  rw [Text.Template.fill_column htemplate hrest]
  exact ⟨_, rfl⟩

theorem exists_assertions_builtIn (object : String) (columns : List Column) :
    ∃ as, RangeTable.builtIn.assertions object columns = .ok as := by
  have hfound : ∃ found, (columns.mapM fun c => (RangeTable.builtIn.rules c.primitive).mapM
      (RangeTable.assertion object c)) = .ok found :=
    exists_mapM_eq_ok fun c _ => exists_mapM_eq_ok fun rule hrule =>
      exists_assertion_builtIn hrule object c
  obtain ⟨found, hfound⟩ := hfound
  exact ⟨found.flatten, bind_eq_ok_iff.mpr ⟨found, hfound, rfl⟩⟩

theorem exists_ofTable {s : TableSchema} (h : s.columns ≠ []) :
    ∃ script, Script.ofTable .builtIn s = .ok script := by
  unfold Script.ofTable
  split
  · contradiction
  · obtain ⟨as, has⟩ := exists_assertions_builtIn s.table s.columns
    exact ⟨_, bind_eq_ok_iff.mpr ⟨as, has, rfl⟩⟩

theorem exists_ofView {s : ViewSchema} (h : s.columns ≠ []) :
    ∃ script, Script.ofView .builtIn s = .ok script := by
  unfold Script.ofView
  split
  · contradiction
  · obtain ⟨as, has⟩ := exists_assertions_builtIn s.view (s.columns.map ViewColumn.toColumn)
    exact ⟨_, bind_eq_ok_iff.mpr ⟨as, has, rfl⟩⟩

theorem reports_ofTable {s : TableSchema} (h : s.columns ≠ []) :
    Reports (Script.ofTable .builtIn s) := by
  obtain ⟨script, hscript⟩ := exists_ofTable h
  rw [hscript]
  exact reports_ok script

theorem reports_ofView {s : ViewSchema} (h : s.columns ≠ []) :
    Reports (Script.ofView .builtIn s) := by
  obtain ⟨script, hscript⟩ := exists_ofView h
  rw [hscript]
  exact reports_ok script

theorem issues_eq_nil_of_requireSound {name : String} {issues : List Issue} {u : Unit}
    (h : requireSound name issues = .ok u) : issues = [] := by
  unfold requireSound at h
  split at h
  · exact List.isEmpty_iff.mp ‹_›
  · cases h

namespace Generator

variable (g : Generator)

theorem reports_createTable (s : TableSchema) : Reports (g.createTable s) := by
  have hcolumn : ∀ isKey c, Reports (ColumnDefinition.ofColumn g.types s.table isKey c) :=
    fun isKey c => (reports_sqlType g.types _ _).bind fun _ _ => reports_ok _
  refine (reports_requireSound _ _).bind fun _ _ => Reports.bind ?_ fun _ _ => reports_ok _
  unfold CreateTable.ofSchema
  split
  · exact reports_ok _
  · exact (hcolumn true _).bind fun _ _ =>
      (reports_mapM (hcolumn false) _).bind fun _ _ => reports_ok _

theorem reports_createView (s : ViewSchema) : Reports (g.createView s) :=
  (reports_requireSound _ _).bind fun _ _ =>
    (reports_requireTypes _ _ _).bind fun _ _ => reports_ok _

theorem reports_tableScript (hranges : g.ranges = .builtIn) (s : TableSchema) :
    Reports (g.tableScript s) := by
  refine (reports_requireSound _ _).bind fun _ hsound =>
    (reports_requireTypes _ _ _).bind fun _ _ => ?_
  have hwell := TableSchema.faults_eq_nil_iff.mp (issues_eq_nil_of_requireSound hsound)
  rw [hranges]
  exact reports_ofTable hwell.columns_ne_nil

theorem reports_viewScript (hranges : g.ranges = .builtIn) (s : ViewSchema) :
    Reports (g.viewScript s) := by
  refine (reports_requireSound _ _).bind fun _ hsound =>
    (reports_requireTypes _ _ _).bind fun _ _ => ?_
  have hwell := ViewSchema.faults_eq_nil_iff.mp (issues_eq_nil_of_requireSound hsound)
  rw [hranges]
  exact reports_ofView hwell.columns_ne_nil

end Generator

end Sql

namespace CompiledDictionary

open Sql

variable {g : Generator} {table : TableSchema} {view : ViewSchema} {a : Artifacts}

theorem reports_artifactsOf (hranges : g.ranges = .builtIn) (table : TableSchema)
    (view : ViewSchema) : Reports (artifactsOf g table view) :=
  (g.reports_createTable table).bind fun _ _ => (g.reports_createView view).bind fun _ _ =>
    (g.reports_tableScript hranges table).bind fun _ _ =>
      (g.reports_viewScript hranges view).bind fun _ _ => reports_ok _

theorem artifactsOf_eq_ok_iff : artifactsOf g table view = .ok a ↔
    g.createTable table = .ok a.tableStatement ∧ g.createView view = .ok a.viewStatement ∧
      (g.tableScript table).map Script.render = .ok a.tableTests ∧
      (g.viewScript view).map Script.render = .ok a.viewTests ∧ a.term = table.label := by
  unfold artifactsOf
  simp only [bind_eq_ok_iff]
  constructor
  · rintro ⟨tableStatement, htable, viewStatement, hview, tableTests, htests, viewTests, htests',
      h⟩
    obtain rfl := Except.ok.inj h
    simp [htable, hview, htests, htests', Except.map]
  · rintro ⟨htable, hview, htests, htests', hterm⟩
    obtain ⟨tableTests, htests, hrender⟩ := exists_of_map_eq_ok htests
    obtain ⟨viewTests, htests', hrender'⟩ := exists_of_map_eq_ok htests'
    refine ⟨_, htable, _, hview, tableTests, htests, viewTests, htests', ?_⟩
    rw [hrender, hrender', ← hterm]
    rfl

end CompiledDictionary

end Glossary
