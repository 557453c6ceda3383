import Treewalk.Grammar.Program
import Treewalk.Proofs.Grammar.Derivation
import Treewalk.Proofs.Grammar.Reads

/-! What the rules for statements read. The only report that does not stop a declaration is on a
name that its scope has declared before; expressions may report more. -/

namespace Treewalk

variable {α β : Type} {ts rest : List Token} {reports : List SyntaxReport} {room : Nat}
  {stmt : Stmt}

/-- The report on a name that its scope has declared before. -/
def redeclaredReport (name : Token) : SyntaxReport :=
  ⟨⟨.redeclared name.lexeme, some name⟩, none⟩

theorem terminated_reads {kind : TokenKind} {fault : SyntaxFault} {rule : Rule α} {f : α → β}
    {b : β} :
    (do
      let a ← rule
      let _ ← Rule.expect kind fault
      return f a : Rule β).Reads ts b reports rest ↔
      ∃ a t, rule.Reads ts a reports (t :: rest) ∧ t.kind = kind ∧ f a = b := by
  rw [Rule.reads_bind]
  constructor
  · rintro ⟨a, before, mid, after, hr, h, rfl⟩
    obtain ⟨t, _, last, _, ht, h₁, rfl⟩ := Rule.reads_bind.mp h
    obtain ⟨rfl, hk, rfl⟩ := Rule.reads_expect.mp ht
    obtain ⟨rfl, rfl, rfl⟩ := Rule.reads_pure.mp h₁
    exact ⟨a, t, by simpa using hr, hk, rfl⟩
  · rintro ⟨a, t, hr, hk, rfl⟩
    exact ⟨a, reports, t :: rest, [], hr, Rule.reads_bind_nil.mpr
      ⟨t, rest, Rule.reads_expect.mpr ⟨rfl, hk, rfl⟩, rfl⟩, by simp⟩

theorem printRule_reads {keyword : Token} :
    (printRule room keyword).Reads ts stmt reports rest ↔
      ∃ e t, (expressionRule room).Reads ts e reports (t :: rest) ∧ t.kind = .semicolon ∧
        .print keyword e = stmt :=
  terminated_reads

theorem expressionStatementRule_reads :
    (expressionStatementRule room).Reads ts stmt reports rest ↔
      ∃ e t, (expressionRule room).Reads ts e reports (t :: rest) ∧ t.kind = .semicolon ∧
        .expression e = stmt :=
  terminated_reads

theorem initializerRule_reads {initializer : Option Expr} :
    (initializerRule room).Reads ts initializer reports rest ↔
      (∃ equals mid e, ts = equals :: mid ∧ equals.kind = .equal ∧
        (expressionRule room).Reads mid e reports rest ∧ some e = initializer) ∨
      ((∀ t ∈ ts.head?, t.kind ≠ .equal) ∧ none = initializer ∧ reports = [] ∧ ts = rest) := by
  unfold initializerRule
  rw [Rule.reads_bind]
  constructor
  · rintro ⟨result, before, mid, after, ha, h, rfl⟩
    cases result with
    | none =>
      obtain ⟨hn, rfl, rfl⟩ := Rule.reads_accept_none.mp ha
      obtain ⟨he, rfl, hr⟩ := Rule.reads_pure.mp h
      exact .inr ⟨fun t ht => only_eq_none_iff.mp (hn t ht), he, rfl, hr⟩
    | some found =>
      obtain ⟨u, equals⟩ := found
      obtain ⟨rfl, hk, rfl⟩ := Rule.reads_accept_some.mp ha
      obtain ⟨e, before, last, after, he, h₁, rfl⟩ := Rule.reads_bind.mp h
      obtain ⟨rfl, rfl, rfl⟩ := Rule.reads_pure.mp h₁
      exact .inl ⟨equals, mid, e, rfl, only_eq_some_iff.mp hk, by simpa using he, rfl⟩
  · rintro (⟨equals, mid, e, rfl, hk, he, rfl⟩ | ⟨hn, rfl, rfl, rfl⟩)
    · exact ⟨some ((), equals), [], mid, reports,
        Rule.reads_accept_some.mpr ⟨rfl, only_eq_some_iff.mpr hk, rfl⟩,
        Rule.reads_bind.mpr ⟨e, reports, rest, [], he, rfl, by simp⟩, rfl⟩
    · exact ⟨none, [], ts, [], Rule.reads_accept_none.mpr
        ⟨fun t ht => only_eq_none_iff.mpr (hn t ht), rfl, rfl⟩, rfl, rfl⟩

theorem freshNameRule_reads {declared : List String} {name : Token} :
    (freshNameRule declared name).Reads ts () reports rest ↔
      reports = ((Stmt.var name none).redeclared declared).map redeclaredReport ∧ ts = rest := by
  unfold freshNameRule Stmt.redeclared
  split
  · exact Rule.reads_report
  · exact Rule.reads_pure.trans (by simp)

theorem varRule_reads {declared : List String} :
    (varRule room declared).Reads ts stmt reports rest ↔
      ∃ name mid initializer others t, ts = name :: mid ∧ name.kind = .identifier ∧
        (initializerRule room).Reads mid initializer others (t :: rest) ∧ t.kind = .semicolon ∧
        .var name initializer = stmt ∧
        reports = (stmt.redeclared declared).map redeclaredReport ++ others := by
  unfold varRule
  rw [Rule.reads_bind]
  constructor
  · rintro ⟨name, before, mid, after, hn, h, rfl⟩
    obtain ⟨rfl, hk, rfl⟩ := Rule.reads_expect.mp hn
    obtain ⟨u, before, last, others, hf, h₁, rfl⟩ := Rule.reads_bind.mp h
    obtain ⟨rfl, rfl⟩ := freshNameRule_reads.mp hf
    obtain ⟨initializer, t, hi, ht, rfl⟩ := terminated_reads.mp h₁
    exact ⟨name, mid, initializer, others, t, rfl, hk, hi, ht, rfl, by simp [Stmt.redeclared]⟩
  · rintro ⟨name, mid, initializer, others, t, rfl, hk, hi, ht, rfl, rfl⟩
    exact ⟨name, [], mid, _, Rule.reads_expect.mpr ⟨rfl, hk, rfl⟩, Rule.reads_bind.mpr
      ⟨(), _, mid, others, freshNameRule_reads.mpr ⟨rfl, rfl⟩,
        terminated_reads.mpr ⟨initializer, t, hi, ht, rfl⟩, rfl⟩, by simp [Stmt.redeclared]⟩

theorem blockStatementRule_reads {inner : Option (Rule (List Stmt))} {brace : Token} :
    (blockStatementRule inner brace).Reads ts stmt reports rest ↔
      ∃ body, (Rule.nested brace inner).Reads ts body reports rest ∧ .block body = stmt := by
  unfold blockStatementRule
  rw [Rule.reads_bind]
  constructor
  · rintro ⟨body, before, mid, after, hb, h, rfl⟩
    obtain ⟨rfl, rfl, rfl⟩ := Rule.reads_pure.mp h
    exact ⟨body, by simpa using hb, rfl⟩
  · rintro ⟨body, hb, rfl⟩
    exact ⟨body, reports, rest, [], hb, rfl, by simp⟩

theorem blockRule_reads {inner : Option (Rule (List Stmt))} {body : List Stmt} :
    (blockRule room inner).Reads ts body reports rest ↔
      ∃ t, scopeOf room inner (· = .rightBrace) ts = ⟨body, reports, t :: rest⟩ ∧
        t.kind = .rightBrace := by
  have hb : ∀ b reports rest, (bodyRule room inner).Reads ts b reports rest ↔
      scopeOf room inner (· = .rightBrace) ts = ⟨b, reports, rest⟩ := by
    intro b reports rest
    rcases hs : scopeOf room inner (· = .rightBrace) ts with ⟨value, before, mid⟩
    simp [Rule.Reads, bodyRule, hs]
  refine terminated_reads.trans ⟨?_, ?_⟩
  · rintro ⟨a, t, hr, hk, rfl⟩
    exact ⟨t, (hb _ _ _).mp hr, hk⟩
  · rintro ⟨t, hr, hk⟩
    exact ⟨body, t, (hb _ _ _).mpr hr, hk, rfl⟩

theorem declarationRule_reads {inner : Option (Rule (List Stmt))} {declared : List String} :
    (declarationRule room inner declared).Reads ts stmt reports rest ↔
      (∃ t mid, ts = t :: mid ∧ t.kind = .var ∧ (varRule room declared).Reads mid stmt reports rest) ∨
      (∃ t mid, ts = t :: mid ∧ t.kind = .print ∧ (printRule room t).Reads mid stmt reports rest) ∨
      (∃ t mid, ts = t :: mid ∧ t.kind = .leftBrace ∧
        (blockStatementRule inner t).Reads mid stmt reports rest) ∨
      ((∀ t ∈ ts.head?, t.kind ≠ .var ∧ t.kind ≠ .print ∧ t.kind ≠ .leftBrace) ∧
        (expressionStatementRule room).Reads ts stmt reports rest) := by
  cases ts with
  | nil => simp [declarationRule, Rule.Reads]
  | cons t ts =>
    by_cases hv : t.kind = .var
    · simp [declarationRule, Rule.Reads, hv, and_assoc]
    · by_cases hp : t.kind = .print
      · simp [declarationRule, Rule.Reads, hp, and_assoc]
      · by_cases hb : t.kind = .leftBrace
        · simp [declarationRule, Rule.Reads, hb, and_assoc]
        · simp [declarationRule, Rule.Reads, hv, hp, hb, and_assoc]

theorem recovering_of_reads {rule : Rule Stmt} (h : rule.Reads ts stmt reports rest) :
    recovering rule ts = ⟨some stmt, reports, rest⟩ := by
  have h : rule ts = ⟨.ok stmt, reports, rest⟩ := h
  simp [recovering, h]

theorem reads_of_recovering {rule : Rule Stmt} (h : (recovering rule ts).reports = []) :
    ∃ stmt rest, rule.Reads ts stmt [] rest := by
  unfold recovering at h
  split at h
  · rename_i stmt reports rest hr
    cases h
    exact ⟨stmt, rest, hr⟩
  · simp at h

end Treewalk
