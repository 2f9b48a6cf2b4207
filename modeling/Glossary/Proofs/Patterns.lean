import Mathlib.Data.List.Range
import Mathlib.Data.List.Sort
import Glossary.Text.Pattern

/-!
How patterns match. The match of two patterns, one after the other, is decided by the first way of
the first pattern from which the second can go on; where there is only one such way, the order of
preference does not matter.
-/

namespace Glossary.Text

namespace Pattern

variable {p q : Pattern} {cs taken rest : List Char} {r s m : Reading} {least n : Nat}
  {greatest : Option Nat} {admits : Char → Bool} {preference : Preference} {name : String}

section Readings

theorem mem_order {α : Type} {as : List α} {a : α} : a ∈ preference.order as ↔ a ∈ as := by
  cases preference <;> simp [Preference.order]

theorem mem_counts_iff : n ∈ counts least greatest admits cs ↔ n ≤ cs.length ∧ least ≤ n ∧
    (∀ most ∈ greatest, n ≤ most) ∧ ∀ c ∈ cs.take n, admits c = true := by
  have hgreatest : greatest.all (fun most => n ≤ most) = true ↔ ∀ most ∈ greatest, n ≤ most := by
    cases greatest <;> simp
  simp only [counts, List.mem_filter, List.mem_range, Nat.lt_succ_iff, Bool.and_eq_true,
    decide_eq_true_eq, hgreatest, List.all_eq_true, and_assoc]

theorem mem_readings_repeated_iff :
    r ∈ (repeated preference least greatest admits).readings cs ↔ r.groups = [] ∧
      r.taken ++ r.rest = cs ∧ least ≤ r.taken.length ∧ (∀ most ∈ greatest, r.taken.length ≤ most) ∧
      ∀ c ∈ r.taken, admits c = true := by
  simp only [readings, List.mem_map, mem_order, mem_counts_iff]
  constructor
  · rintro ⟨n, ⟨hn, hleast, hgreatest, hadmits⟩, rfl⟩
    refine ⟨rfl, List.take_append_drop n cs, ?_, ?_, hadmits⟩
    · simpa [hn] using hleast
    · simpa [hn] using hgreatest
  · obtain ⟨groups, taken, rest⟩ := r
    rintro ⟨rfl, rfl, hleast, hgreatest, hadmits⟩
    exact ⟨taken.length, ⟨by simp, hleast, hgreatest, by simpa using hadmits⟩, by simp⟩

theorem mem_readings_next_iff : m ∈ (next p q).readings cs ↔
    ∃ r ∈ p.readings cs, ∃ s ∈ q.readings r.rest, r.andThen s = m := by
  simp [readings]

end Readings

section Match

theorem match?_next : (next p q).match? cs =
    (p.readings cs).findSome? fun r => (q.match? r.rest).map r.andThen := by
  simp [match?, readings, List.head?_flatMap]

theorem match?_next_eq_none_iff :
    (next p q).match? cs = none ↔ ∀ r ∈ p.readings cs, q.match? r.rest = none := by
  simp [match?_next]

/-- There is a match if the second pattern can go on from some way of the first. -/
theorem match?_next_ne_none_iff :
    (next p q).match? cs ≠ none ↔ ∃ r ∈ p.readings cs, q.match? r.rest ≠ none := by
  simp [match?_next_eq_none_iff]

/-- The second pattern can go on from one way of the first only. -/
theorem match?_next_of_only (hr : r ∈ p.readings cs)
    (honly : ∀ s ∈ p.readings cs, q.match? s.rest ≠ none → s = r) :
    (next p q).match? cs = (q.match? r.rest).map r.andThen := by
  rw [match?_next]
  cases hmatch : q.match? r.rest with
  | none =>
      rw [Option.map_none, List.findSome?_eq_none_iff]
      intro s hs
      by_contra hne
      rw [Option.map_eq_none_iff] at hne
      rw [honly s hs hne] at hne
      exact hne hmatch
  | some found =>
      cases hfind : (p.readings cs).findSome? fun r => (q.match? r.rest).map r.andThen with
      | none =>
          have hnone := List.findSome?_eq_none_iff.mp hfind r hr
          rw [hmatch] at hnone
          cases hnone
      | some found' =>
          obtain ⟨s, hs, hsome⟩ := List.exists_of_findSome?_eq_some hfind
          have hne : q.match? s.rest ≠ none := by
            intro hnone
            rw [hnone] at hsome
            cases hsome
          obtain rfl := honly s hs hne
          rw [← hsome, hmatch]

theorem pairwise_counts (least : Nat) (greatest : Option Nat) (admits : Char → Bool)
    (cs : List Char) : (counts least greatest admits cs).Pairwise (· < ·) :=
  List.pairwise_lt_range.filter _

/-- A repetition that prefers to take little stops where the second pattern can first go on. -/
theorem match?_named_fewest_next_iff :
    (next (named name (repeated .fewest least none admits)) q).match? cs = some m ↔
      ∃ taken rest s, cs = taken ++ rest ∧ least ≤ taken.length ∧ (∀ c ∈ taken, admits c = true) ∧
        q.match? rest = some s ∧ m = ⟨(name, taken) :: s.groups, taken ++ s.taken, s.rest⟩ ∧
        ∀ taken' rest', cs = taken' ++ rest' → least ≤ taken'.length →
          taken'.length < taken.length → q.match? rest' = none := by
  rw [match?_next, readings, List.findSome?_map, readings, List.findSome?_map, Preference.order,
    List.findSome?_eq_some_iff]
  have hsorted := pairwise_counts least none admits cs
  constructor
  · rintro ⟨before, n, after, hcounts, hfound, hbefore⟩
    obtain ⟨s, hs, rfl⟩ := Option.map_eq_some_iff.mp hfound
    have hn : n ∈ counts least none admits cs := by simp [hcounts]
    obtain ⟨hle, hleast, -, hadmits⟩ := mem_counts_iff.mp hn
    refine ⟨cs.take n, cs.drop n, s, (List.take_append_drop n cs).symm, by simpa [hle], hadmits, hs,
      rfl, ?_⟩
    rintro taken' rest' rfl hleast' hlt
    rw [List.length_take_of_le hle] at hlt
    have hmem : taken'.length ∈ before ++ n :: after := by
      rw [← hcounts]
      refine mem_counts_iff.mpr ⟨by simp, hleast', by simp, fun c hc => hadmits c ?_⟩
      exact (List.take_prefix_take_left hlt.le).mem hc
    rw [hcounts, List.pairwise_append] at hsorted
    rcases List.mem_append.mp hmem with hmem | hmem
    · have hnone := hbefore _ hmem
      simpa using hnone
    · rcases List.mem_cons.mp hmem with heq | hmem
      · omega
      · have hgt := (List.pairwise_cons.mp hsorted.2.1).1 _ hmem
        omega
  · rintro ⟨taken, rest, s, rfl, hleast, hadmits, hs, rfl, hfirst⟩
    have hmem : taken.length ∈ counts least none admits (taken ++ rest) :=
      mem_counts_iff.mpr ⟨by simp, hleast, by simp, by simpa using hadmits⟩
    obtain ⟨before, after, hcounts⟩ := List.append_of_mem hmem
    refine ⟨before, taken.length, after, hcounts, by simp [hs, Reading.andThen], fun n hn => ?_⟩
    have hn' : n ∈ counts least none admits (taken ++ rest) := by simp [hcounts, hn]
    obtain ⟨hle, hleast', -⟩ := mem_counts_iff.mp hn'
    rw [hcounts, List.pairwise_append] at hsorted
    have hlt : n < taken.length := hsorted.2.2 n hn _ List.mem_cons_self
    have hnone := hfirst _ _ (List.take_append_drop n (taken ++ rest)).symm
      (by rwa [List.length_take_of_le hle]) (by rwa [List.length_take_of_le hle])
    rw [Function.comp_apply, Function.comp_apply, hnone, Option.map_none]

theorem match?_textEnd_nil : textEnd.match? [] = some ⟨[], [], []⟩ := rfl

theorem eq_nil_of_match?_textEnd (hline : '\n' ∉ cs) (h : textEnd.match? cs ≠ none) : cs = [] := by
  by_contra hne
  have hfeed : cs ≠ ['\n'] := by
    rintro rfl
    simp at hline
  exact h (by simp [match?, readings, hne, hfeed])

/-- A repetition that prefers to take much takes all it can, if the rest can go on there. -/
theorem match?_most_next (hleast : least ≤ taken.length) (hadmits : ∀ c ∈ taken, admits c = true)
    (hstop : ∀ c ∈ rest.head?, admits c = false) (hq : q.match? rest = some s) :
    (next (repeated .most least none admits) q).match? (taken ++ rest) =
      some ⟨s.groups, taken ++ s.taken, s.rest⟩ := by
  have hmem : taken.length ∈ counts least none admits (taken ++ rest) :=
    mem_counts_iff.mpr ⟨by simp, hleast, by simp, by simpa using hadmits⟩
  obtain ⟨before, after, hcounts⟩ := List.append_of_mem hmem
  have hsorted := pairwise_counts least none admits (taken ++ rest)
  have hafter : after = [] := by
    refine List.eq_nil_iff_forall_not_mem.mpr fun n hn => ?_
    rw [hcounts, List.pairwise_append, List.pairwise_cons] at hsorted
    have hlt : taken.length < n := hsorted.2.1.1 n hn
    obtain ⟨hle, -, -, hadmits'⟩ := mem_counts_iff.mp (hcounts ▸ by simp [hn] :
      n ∈ counts least none admits (taken ++ rest))
    cases rest with
    | nil =>
        rw [List.append_nil] at hle
        omega
    | cons c rest =>
        have hc : c ∈ (taken ++ c :: rest).take n := by
          obtain ⟨more, rfl⟩ := Nat.exists_eq_add_of_lt hlt
          simp [Nat.add_assoc, List.take_length_add_append]
        have hnot := hstop c rfl
        rw [hadmits' c hc] at hnot
        cases hnot
  subst hafter
  rw [match?_next, readings, List.findSome?_map, Preference.order, hcounts, List.reverse_append,
    List.reverse_singleton, List.singleton_append, List.findSome?_cons]
  simp [hq, Reading.andThen]

end Match

section Recognition

/-- The pattern takes just the texts with this property, and names no part of them. -/
def Recognizes (p : Pattern) (property : List Char → Prop) : Prop :=
  ∀ cs r, r ∈ p.readings cs ↔ r.groups = [] ∧ r.taken ++ r.rest = cs ∧ property r.taken

variable {property property' : List Char → Prop}

theorem Recognizes.congr (h : p.Recognizes property)
    (hiff : ∀ text, property text ↔ property' text) : p.Recognizes property' := by
  intro cs r
  rw [h cs r, hiff]

theorem recognizes_nothing : nothing.Recognizes fun text => text = [] := by
  rintro cs ⟨groups, taken, rest⟩
  simp only [readings, List.mem_singleton, Reading.mk.injEq]
  constructor
  · rintro ⟨rfl, rfl, rfl⟩
    exact ⟨rfl, rfl, rfl⟩
  · rintro ⟨rfl, rfl, rfl⟩
    exact ⟨rfl, rfl, rfl⟩

theorem recognizes_repeated : (repeated preference least greatest admits).Recognizes fun text =>
    least ≤ text.length ∧ (∀ most ∈ greatest, text.length ≤ most) ∧
      ∀ c ∈ text, admits c = true :=
  fun _ _ => mem_readings_repeated_iff

theorem recognizes_one : (one admits).Recognizes fun text => ∃ c, text = [c] ∧ admits c = true := by
  refine recognizes_repeated.congr fun text => ?_
  constructor
  · rintro ⟨hleast, hgreatest, hadmits⟩
    obtain ⟨c, rfl⟩ := List.length_eq_one_iff.mp (le_antisymm (hgreatest 1 rfl) hleast)
    exact ⟨c, rfl, hadmits c List.mem_cons_self⟩
  · rintro ⟨c, rfl, hc⟩
    simpa using hc

theorem recognizes_optional : (optional admits).Recognizes fun text =>
    text = [] ∨ ∃ c, text = [c] ∧ admits c = true := by
  refine recognizes_repeated.congr fun text => ?_
  match text with
  | [] => simp
  | [c] => simp
  | c :: d :: more => simp

theorem Recognizes.next (hp : p.Recognizes property) (hq : q.Recognizes property') :
    (next p q).Recognizes fun text =>
      ∃ front back, text = front ++ back ∧ property front ∧ property' back := by
  intro cs m
  rw [mem_readings_next_iff]
  constructor
  · rintro ⟨⟨groups, taken, rest⟩, hr, ⟨groups', taken', rest'⟩, hs, rfl⟩
    obtain ⟨rfl, rfl, hfront⟩ := (hp _ _).mp hr
    obtain ⟨rfl, rfl, hback⟩ := (hq _ _).mp hs
    exact ⟨rfl, List.append_assoc _ _ _, taken, taken', rfl, hfront, hback⟩
  · obtain ⟨groups, taken, rest⟩ := m
    rintro ⟨rfl, rfl, front, back, rfl, hfront, hback⟩
    exact ⟨⟨[], front, back ++ rest⟩, (hp _ _).mpr ⟨rfl, (List.append_assoc _ _ _).symm, hfront⟩,
      ⟨[], back, rest⟩, (hq _ _).mpr ⟨rfl, rfl, hback⟩, rfl⟩

theorem Recognizes.either (hp : p.Recognizes property) (hq : q.Recognizes property') :
    (either p q).Recognizes fun text => property text ∨ property' text := by
  intro cs r
  rw [readings, List.mem_append, hp, hq]
  tauto

theorem Recognizes.mem_named_iff (hp : p.Recognizes property) :
    r ∈ (named name p).readings cs ↔
      r.groups = [(name, r.taken)] ∧ r.taken ++ r.rest = cs ∧ property r.taken := by
  simp only [readings, List.mem_map]
  constructor
  · rintro ⟨s, hs, rfl⟩
    obtain ⟨hgroups, happend, hproperty⟩ := (hp _ _).mp hs
    exact ⟨by rw [hgroups], happend, hproperty⟩
  · obtain ⟨groups, taken, rest⟩ := r
    rintro ⟨hgroups, rfl, hproperty⟩
    obtain rfl : groups = [(name, taken)] := hgroups
    exact ⟨⟨[], taken, rest⟩, (hp _ _).mpr ⟨rfl, rfl, hproperty⟩, rfl⟩

end Recognition

end Pattern

end Glossary.Text
