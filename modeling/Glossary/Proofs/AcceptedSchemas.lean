import Glossary.Proofs.Generation

/-!
Which schemas the generator accepts. A statement and a script are refused alike: for a schema that
is not well formed, and for one with a type that SQL does not know.
-/

namespace Glossary

open Fallible

def Sql.TypeMap.Maps (m : TypeMap) (primitive : String) : Prop :=
  (m.find? primitive).isSome = true

namespace Schema

def name : Schema → String
  | .table s => s.table
  | .view s => s.view

def faults : Schema → List Issue
  | .table t => t.faults
  | .view v => v.faults

theorem faults_eq_nil_iff {s : Schema} : s.faults = [] ↔ s.IsWellFormed := by
  cases s with
  | table s => exact TableSchema.faults_eq_nil_iff
  | view s => exact ViewSchema.faults_eq_nil_iff

/-- The schema is well formed, and its columns are of types that have an SQL type. -/
structure IsExpressible (types : Sql.TypeMap) (s : Schema) : Prop where
  wellFormed : s.IsWellFormed
  typed : ∀ c ∈ s.columns, types.Maps c.primitive

end Schema

namespace Sql

variable {types : TypeMap} {name : String} {columns : List Column}

/-- Column by column, the statement of a table needs what its script needs. -/
theorem alike_ofSchema (types : TypeMap) (s : TableSchema) :
    Alike (CreateTable.ofSchema types s) (requireTypes types s.table s.columns) := by
  have hcolumn : ∀ isKey c, Alike (ColumnDefinition.ofColumn types s.table isKey c)
      (do let _ ← types.sqlType c.primitive (s.table ++ "." ++ c.name); return ()) :=
    fun isKey c => Alike.bind rfl fun _ _ _ => rfl
  unfold CreateTable.ofSchema requireTypes
  split
  · rename_i hnil
    rw [hnil]
    rfl
  · rename_i identifier rest hcons
    rw [hcons]
    exact (hcolumn true identifier).bind fun first _ _ =>
      (alike_mapM_forM (hcolumn false) rest).bind_ok fun others => ⟨_, rfl⟩

theorem requireTypes_eq_ok_iff :
    requireTypes types name columns = .ok () ↔ ∀ c ∈ columns, types.Maps c.primitive := by
  refine forM_eq_ok_iff.trans (forall₂_congr fun c _ => ?_)
  rw [bind_eq_ok_iff, TypeMap.Maps, Option.isSome_iff_exists]
  simp only [sqlType_eq_ok_iff]
  exact ⟨fun ⟨sqlType, h, _⟩ => ⟨sqlType, h⟩, fun ⟨sqlType, h⟩ => ⟨sqlType, h, rfl⟩⟩

theorem requireSound_eq_ok_iff {issues : List Issue} :
    requireSound name issues = .ok () ↔ issues = [] := by
  refine ⟨issues_eq_nil_of_requireSound, fun h => ?_⟩
  rw [h]
  rfl

theorem SqlError.IsReported.exists_diagnostic {e : SqlError} (h : e.IsReported) :
    ∃ message term, e.diagnostic? = some (.generation message term) := by
  cases e with
  | unmapped primitive location => exact ⟨_, _, rfl⟩
  | faulty name issues => exact ⟨_, _, rfl⟩
  | template fault => exact h.elim
  | noIdentifier => exact h.elim

namespace Generator

variable {g : Generator} {s : Schema}

/-- What is looked at before a schema is written as SQL. -/
def check (g : Generator) (s : Schema) : Except SqlError Unit := do
  requireSound s.name s.faults
  requireTypes g.types s.name s.columns

theorem check_eq_ok_iff : g.check s = .ok () ↔ s.IsExpressible g.types := by
  rw [check, bind_eq_ok_iff]
  constructor
  · rintro ⟨⟨⟩, hsound, htypes⟩
    exact ⟨Schema.faults_eq_nil_iff.mp (requireSound_eq_ok_iff.mp hsound),
      requireTypes_eq_ok_iff.mp htypes⟩
  · intro h
    exact ⟨(), requireSound_eq_ok_iff.mpr (Schema.faults_eq_nil_iff.mpr h.wellFormed),
      requireTypes_eq_ok_iff.mpr h.typed⟩

theorem reports_check (g : Generator) (s : Schema) : Reports (g.check s) :=
  (reports_requireSound _ _).bind fun _ _ => reports_requireTypes _ _ _

theorem alike_create (g : Generator) (s : Schema) : Alike (g.create s) (g.check s) := by
  cases s with
  | table s =>
      exact Alike.bind rfl fun _ _ _ => (alike_ofSchema g.types s).bind_ok fun _ => ⟨_, rfl⟩
  | view s => exact Alike.bind rfl fun _ _ _ => Alike.bind_ok rfl fun _ => ⟨_, rfl⟩

theorem isExpressible_of_create {text : String} (h : g.create s = .ok text) :
    s.IsExpressible g.types := by
  obtain ⟨_, hcheck⟩ := (g.alike_create s).ok_iff.mp ⟨text, h⟩
  exact check_eq_ok_iff.mp hcheck

/-- A script starts from the first column, which is there once the schema is found sound. -/
theorem alike_script (hranges : g.ranges = .builtIn) (s : Schema) :
    Alike (g.script s) (g.check s) := by
  cases s with
  | table s =>
      refine Alike.bind rfl fun _ _ hsound => Alike.bind_ok rfl fun _ => ?_
      have hwell := TableSchema.faults_eq_nil_iff.mp (issues_eq_nil_of_requireSound hsound)
      rw [hranges]
      exact exists_ofTable hwell.columns_ne_nil
  | view s =>
      refine Alike.bind rfl fun _ _ hsound => Alike.bind_ok rfl fun _ => ?_
      have hwell := ViewSchema.faults_eq_nil_iff.mp (issues_eq_nil_of_requireSound hsound)
      rw [hranges]
      exact exists_ofView hwell.columns_ne_nil

theorem exists_texts (hranges : g.ranges = .builtIn) (h : s.IsExpressible g.types) :
    (∃ text, g.create s = .ok text) ∧ ∃ script, g.script s = .ok script := by
  have hcheck : ∃ u, g.check s = .ok u := ⟨(), check_eq_ok_iff.mpr h⟩
  exact ⟨(g.alike_create s).ok_iff.mpr hcheck, (alike_script hranges s).ok_iff.mpr hcheck⟩

/-- What the generator makes of a schema: a statement and a script, or one error for both. -/
structure Decides (g : Generator) (s : Schema) : Prop where
  created_iff : (∃ text, g.create s = .ok text) ↔ s.IsExpressible g.types
  tested_iff : (∃ script, g.script s = .ok script) ↔ s.IsExpressible g.types
  refused : ¬ s.IsExpressible g.types → ∃ e message term, g.create s = .error e ∧
    g.script s = .error e ∧ e.diagnostic? = some (.generation message term)

/-- With the range rules that are built in, the generator accepts exactly what is expressible. -/
theorem decides (hranges : g.ranges = .builtIn) (s : Schema) : g.Decides s := by
  have hcreate := g.alike_create s
  have hscript := alike_script hranges s
  have hcheck : (∃ u, g.check s = .ok u) ↔ s.IsExpressible g.types :=
    ⟨fun ⟨_, h⟩ => check_eq_ok_iff.mp h, fun h => ⟨(), check_eq_ok_iff.mpr h⟩⟩
  constructor
  case created_iff => exact hcreate.ok_iff.trans hcheck
  case tested_iff => exact hscript.ok_iff.trans hcheck
  case refused =>
    intro hrefused
    cases herror : g.check s with
    | ok u => exact absurd (hcheck.mp ⟨u, herror⟩) hrefused
    | error e =>
        obtain ⟨message, term, hdiagnostic⟩ := (g.reports_check s e herror).exists_diagnostic
        exact ⟨e, message, term, hcreate.error_iff.mpr herror, hscript.error_iff.mpr herror,
          hdiagnostic⟩

/-- An order shows the country of its buyer, which is two joins away. -/
def orderView (joins : List Join) : ViewSchema :=
  ⟨"order", "Order", "logical_order", "physical_order", "t0", [
    ⟨⟨"order_id", "String", .identifier, true, "order", "Order", none⟩, "t0", "Order"⟩,
    ⟨⟨"country_id", "String", .reference, true, "country", "Country", some .requires⟩, "t2",
      "Buyer"⟩], joins, [], []⟩

def buyerJoin : Join :=
  ⟨"t1", .requires, .table, "physical_buyer", "buyer", "Buyer", "t0", "order", "Order", "buyer_id",
    "buyer_id", .inner⟩

def countryJoin : Join :=
  ⟨"t2", .requires, .table, "physical_country", "country", "Country", "t1", "buyer", "Buyer",
    "country_id", "country_id", .inner⟩

def builtIn : Generator :=
  ⟨.builtIn, true, .builtIn⟩

/-- The same joins are accepted in the one order and refused in the other. -/
theorem orderView_decides :
    ((∃ text, builtIn.create (.view (orderView [buyerJoin, countryJoin])) = .ok text) ∧
      ∃ tests, builtIn.script (.view (orderView [buyerJoin, countryJoin])) = .ok tests) ∧
    ∃ e message term, builtIn.create (.view (orderView [countryJoin, buyerJoin])) = .error e ∧
      builtIn.script (.view (orderView [countryJoin, buyerJoin])) = .error e ∧
        e.diagnostic? = some (.generation message term) := by
  have hranges : builtIn.ranges = .builtIn := rfl
  have hordered : (Schema.view (orderView [buyerJoin, countryJoin])).IsExpressible .builtIn :=
    check_eq_ok_iff (g := builtIn).mp rfl
  constructor
  · have h := decides hranges (.view (orderView [buyerJoin, countryJoin]))
    exact ⟨h.created_iff.mpr hordered, h.tested_iff.mpr hordered⟩
  · refine (decides hranges (.view (orderView [countryJoin, buyerJoin]))).refused fun h => ?_
    obtain h | ⟨k, hk, -⟩ := h.wellFormed.joins_hang [] countryJoin [buyerJoin] rfl
    · exact absurd h (by decide)
    · cases hk

end Generator

end Sql

end Glossary
