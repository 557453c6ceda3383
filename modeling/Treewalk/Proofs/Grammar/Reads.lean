import Treewalk.Grammar.Rule

/-! Grammar rules that come to an end without an error. A rule is known by what it reads: its
tokens, its result, the reports made on the way, and the tokens that it leaves. -/

namespace Treewalk

/-- The rule reads the tokens `ts` up to `rest` as `a` and makes these reports. -/
def Rule.Reads {α : Type} (rule : Rule α) (ts : List Token) (a : α)
    (reports : List SyntaxReport) (rest : List Token) : Prop :=
  rule ts = ⟨.ok a, reports, rest⟩

variable {α β : Type} {ts rest : List Token} {reports : List SyntaxReport}

theorem Rule.reads_pure {a b : α} :
    (pure a : Rule α).Reads ts b reports rest ↔ a = b ∧ reports = [] ∧ ts = rest := by
  constructor
  · intro h
    have hr : (⟨.ok a, [], ts⟩ : Reading (Except SyntaxError α)) = ⟨.ok b, reports, rest⟩ := h
    cases hr
    exact ⟨rfl, rfl, rfl⟩
  · rintro ⟨rfl, rfl, rfl⟩
    rfl

theorem Rule.reads_bind {rule : Rule α} {next : α → Rule β} {b : β} :
    (rule >>= next).Reads ts b reports rest ↔
      ∃ a before mid after, rule.Reads ts a before mid ∧ (next a).Reads mid b after rest ∧
        reports = before ++ after := by
  have hb : (rule >>= next) ts = rule.bind next ts := rfl
  constructor
  · intro h
    unfold Rule.Reads at h
    rw [hb] at h
    rcases hr : rule ts with ⟨result, before, mid⟩
    cases result with
    | error e =>
      rw [Rule.bind_error hr] at h
      cases h
    | ok a =>
      rw [Rule.bind_ok hr] at h
      rcases hn : next a mid with ⟨value, after, tail⟩
      rw [hn] at h
      cases h
      exact ⟨a, before, mid, after, hr, hn, rfl⟩
  · rintro ⟨a, before, mid, after, hr, hn, rfl⟩
    have hn : next a mid = ⟨.ok b, after, rest⟩ := hn
    unfold Rule.Reads
    rw [hb, Rule.bind_ok hr, hn]

theorem Rule.reads_bind_nil {rule : Rule α} {next : α → Rule β} {b : β} :
    (rule >>= next).Reads ts b [] rest ↔
      ∃ a mid, rule.Reads ts a [] mid ∧ (next a).Reads mid b [] rest := by
  rw [Rule.reads_bind]
  constructor
  · rintro ⟨a, before, mid, after, hr, hn, he⟩
    obtain ⟨rfl, rfl⟩ := List.nil_eq_append_iff.mp he
    exact ⟨a, mid, hr, hn⟩
  · rintro ⟨a, mid, hr, hn⟩
    exact ⟨a, [], mid, [], hr, hn, rfl⟩

theorem Rule.not_reads_fail {fault : SyntaxFault} {place : Option Token} {a : α} :
    ¬ (Rule.fail fault place : Rule α).Reads ts a reports rest := by
  intro h
  cases h

theorem Rule.reads_report {fault : SyntaxFault} {place : Token} :
    (Rule.report fault place).Reads ts () reports rest ↔
      reports = [⟨⟨fault, some place⟩, none⟩] ∧ ts = rest := by
  constructor
  · intro h
    cases h
    exact ⟨rfl, rfl⟩
  · rintro ⟨rfl, rfl⟩
    rfl

theorem Rule.reads_accept_some {image : TokenKind → Option α} {a : α} {t : Token} :
    (Rule.accept? image).Reads ts (some (a, t)) reports rest ↔
      ts = t :: rest ∧ image t.kind = some a ∧ reports = [] := by
  constructor
  · intro h
    unfold Rule.Reads at h
    cases ts with
    | nil => cases h
    | cons u us =>
      unfold Rule.accept? at h
      dsimp only at h
      split at h
      · rename_i hi
        cases h
        exact ⟨rfl, hi, rfl⟩
      · cases h
  · rintro ⟨rfl, hi, rfl⟩
    simp [Rule.Reads, Rule.accept?, hi]

theorem Rule.reads_accept_none {image : TokenKind → Option α} :
    (Rule.accept? image).Reads ts none reports rest ↔
      (∀ t ∈ ts.head?, image t.kind = none) ∧ reports = [] ∧ ts = rest := by
  constructor
  · intro h
    unfold Rule.Reads at h
    cases ts with
    | nil =>
      cases h
      simp
    | cons u us =>
      unfold Rule.accept? at h
      dsimp only at h
      split at h
      · cases h
      · rename_i hi
        cases h
        simpa using hi
  · rintro ⟨hi, rfl, rfl⟩
    cases ts with
    | nil => rfl
    | cons u us => simp [Rule.Reads, Rule.accept?, hi u (by simp)]

theorem only_eq_some_iff {kind k : TokenKind} {u : Unit} : only kind k = some u ↔ k = kind := by
  simp [only]

theorem only_eq_none_iff {kind k : TokenKind} : only kind k = none ↔ k ≠ kind := by
  simp [only]

theorem Rule.reads_expect {kind : TokenKind} {fault : SyntaxFault} {t : Token} :
    (Rule.expect kind fault).Reads ts t reports rest ↔
      ts = t :: rest ∧ t.kind = kind ∧ reports = [] := by
  unfold Rule.expect
  rw [Rule.reads_bind]
  constructor
  · rintro ⟨result, before, mid, after, hr, hn, rfl⟩
    cases result with
    | none => exact absurd hn Rule.not_reads_fail
    | some found =>
      obtain ⟨u, s⟩ := found
      obtain ⟨rfl, hk, rfl⟩ := Rule.reads_accept_some.mp hr
      obtain ⟨rfl, rfl, rfl⟩ := Rule.reads_pure.mp hn
      exact ⟨rfl, only_eq_some_iff.mp hk, rfl⟩
  · rintro ⟨rfl, hk, rfl⟩
    exact ⟨some ((), t), [], rest, [],
      Rule.reads_accept_some.mpr ⟨rfl, only_eq_some_iff.mpr hk, rfl⟩, rfl, rfl⟩

theorem Rule.reads_nested {opener : Token} {inner : Option (Rule α)} {a : α} :
    (Rule.nested opener inner).Reads ts a reports rest ↔
      ∃ rule, inner = some rule ∧ rule.Reads ts a reports rest := by
  cases inner with
  | none =>
    constructor
    · intro h
      exact absurd h Rule.not_reads_fail
    · rintro ⟨rule, h, _⟩
      cases h
  | some rule => simp [Rule.nested]

/-- The rule is stopped by the error in front of `rest`, after these reports. -/
def Rule.Fails {α : Type} (rule : Rule α) (ts : List Token) (e : SyntaxError)
    (reports : List SyntaxReport) (rest : List Token) : Prop :=
  rule ts = ⟨.error e, reports, rest⟩

variable {e : SyntaxError}

theorem Rule.fails_bind {rule : Rule α} {next : α → Rule β} (h : rule.Fails ts e reports rest) :
    (rule >>= next).Fails ts e reports rest :=
  Rule.bind_error h next

theorem Rule.fails_bind_of_reads {rule : Rule α} {next : α → Rule β} {a : α} {mid : List Token}
    {before after : List SyntaxReport} (h : rule.Reads ts a before mid)
    (hn : (next a).Fails mid e after rest) :
    (rule >>= next).Fails ts e (before ++ after) rest := by
  have hn : next a mid = ⟨.error e, after, rest⟩ := hn
  have hb : (rule >>= next) ts = rule.bind next ts := rfl
  unfold Rule.Fails
  rw [hb, Rule.bind_ok h, hn]

theorem Rule.expect_fails {kind : TokenKind} {t : Token} (h : t.kind ≠ kind) (fault : SyntaxFault)
    (ts : List Token) : (Rule.expect kind fault).Fails (t :: ts) ⟨fault, some t⟩ [] (t :: ts) := by
  have hn : (Rule.accept? (only kind)).Reads (t :: ts) none [] (t :: ts) :=
    Rule.reads_accept_none.mpr ⟨by simpa using only_eq_none_iff.mpr h, rfl, rfl⟩
  exact Rule.fails_bind_of_reads hn rfl

end Treewalk
