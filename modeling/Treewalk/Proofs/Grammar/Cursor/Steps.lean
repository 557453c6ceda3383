import Treewalk.Proofs.Grammar.Cursor

/-! What the small procedures do with a cursor that has not passed the first token for the end of
the text: they see the tokens that remain, never leave the list, and pass a token only if one
remains. -/

namespace Treewalk

section Attempts

variable {α β : Type} {s s₁ s₂ : Cursor}

theorem returns_throw (d : Diagnostic) (s : Cursor) :
    Returns (throw d : Attempt α).run s (.error d) s := rfl

theorem Returns.attempt {p : Act α} {a : α} (h : Returns p s a s₁) :
    Returns (liftM p : Attempt α).run s (.ok a) s₁ := by
  have hlift : (liftM p : Attempt α).run = p >>= fun a => pure (.ok a) := by
    rw [ExceptT.run_liftM, map_eq_pure_bind]
  rw [hlift]
  exact h.bind (returns_pure _ _)

theorem Returns.attempt_bind {p : Attempt α} {next : α → Attempt β} {a : α}
    {result : Except Diagnostic β} (hp : Returns p.run s (.ok a) s₁)
    (hnext : Returns (next a).run s₁ result s₂) : Returns (p >>= next).run s result s₂ := by
  rw [ExceptT.run_bind]
  exact hp.bind hnext

theorem Returns.attempt_error {p : Attempt α} {d : Diagnostic} (hp : Returns p.run s (.error d) s₁)
    (next : α → Attempt β) : Returns (p >>= next).run s (.error d) s₁ := by
  rw [ExceptT.run_bind]
  exact hp.bind (returns_pure _ _)

end Attempts

section Places

variable {rest : List Token} {t : Token} {s : Cursor}

/-- A list of tokens as a text, the first token for the end, and what stands behind it. -/
structure Stream where
  tokens : List Token
  text : List Token
  eof : Token
  beginning : text ++ [eof] <+: tokens
  kind_ne : ∀ t ∈ text, t.kind ≠ .eof
  eof_kind : eof.kind = .eof

/-- The cursor stands in front of the rest of the text. -/
structure Cursor.At (src : Stream) (s : Cursor) (rest : List Token) : Prop where
  suffix : rest <:+ src.text
  position : s.position + rest.length = src.text.length

/-- The cursor in front of the rest of the text. -/
def Cursor.moveTo (src : Stream) (rest : List Token) (s : Cursor) : Cursor :=
  { s with position := src.text.length - rest.length }

variable {src : Stream}

theorem Cursor.at_drop (h : s.position ≤ src.text.length) :
    s.At src (src.text.drop s.position) where
  suffix := List.drop_suffix _ _
  position := by
    rw [List.length_drop]
    omega

theorem Cursor.at_moveTo (h : rest <:+ src.text) (s : Cursor) :
    (s.moveTo src rest).At src rest where
  suffix := h
  position := Nat.sub_add_cancel h.length_le

theorem Cursor.At.eq_moveTo (h : s.At src rest) : s = s.moveTo src rest := by
  have hposition : s.position = src.text.length - rest.length := by
    have hsum := h.position
    omega
  rw [Cursor.moveTo, ← hposition]

theorem Cursor.At.tail (h : s.At src (t :: rest)) : rest <:+ src.text :=
  (List.suffix_cons t rest).trans h.suffix

theorem Cursor.At.moveTo_tail (h : s.At src (t :: rest)) :
    s.moveTo src rest = { s with position := s.position + 1 } := by
  have hposition : src.text.length - rest.length = s.position + 1 := by
    have hsum := h.position
    rw [List.length_cons] at hsum
    omega
  rw [Cursor.moveTo, hposition]

theorem Cursor.At.kind_ne (h : s.At src (t :: rest)) : t.kind ≠ .eof :=
  src.kind_ne t (h.suffix.subset List.mem_cons_self)

theorem Cursor.At.getElem?_eq (h : s.At src rest) :
    src.tokens[s.position]? = some (rest.head?.getD src.eof) := by
  obtain ⟨junk, hjunk⟩ := src.beginning
  obtain ⟨before, hbefore⟩ := h.suffix
  have hlength : s.position = before.length := by
    have hposition := h.position
    rw [← hbefore, List.length_append] at hposition
    omega
  rw [← hjunk, ← hbefore, hlength, List.append_assoc, List.append_assoc,
    List.getElem?_append_right (Nat.le_refl _), Nat.sub_self]
  cases rest <;> rfl

theorem returns_tokenAt {tokens : List Token} {index : Nat} (h : tokens[index]? = some t)
    (s : Cursor) : Returns (tokenAt tokens index) s t s := by
  rw [tokenAt, h]
  exact returns_pure _ _

theorem returns_peek (h : s.At src rest) :
    Returns (peek src.tokens) s (rest.head?.getD src.eof) s :=
  (returns_get s).bind (returns_tokenAt h.getElem?_eq s)

theorem returns_previous (h : s.At src (t :: rest)) :
    Returns (previous src.tokens) (s.moveTo src rest) t (s.moveTo src rest) := by
  rw [h.moveTo_tail]
  exact (returns_get _).bind (returns_tokenAt h.getElem?_eq _)

/-- A token stands in front of every cursor, or at it if it stands at the start. -/
theorem exists_returns_previous (h : s.At src rest) :
    ∃ t, Returns (previous src.tokens) s t s := by
  have hlt : s.position - 1 < src.tokens.length := by
    have hlength := src.beginning.length_le
    have hposition := h.position
    rw [List.length_append, List.length_singleton] at hlength
    omega
  exact ⟨src.tokens.get ⟨s.position - 1, hlt⟩,
    (returns_get s).bind (returns_tokenAt (List.getElem?_eq_getElem hlt) s)⟩

theorem returns_isAtEnd (h : s.At src rest) : Returns (isAtEnd src.tokens) s rest.isEmpty s := by
  have hkind : decide ((rest.head?.getD src.eof).kind = .eof) = rest.isEmpty := by
    cases rest with
    | nil => simp [src.eof_kind]
    | cons t rest => simp [h.kind_ne]
  rw [← hkind]
  exact (returns_peek h).bind (returns_pure _ _)

theorem returns_advance (h : s.At src (t :: rest)) :
    Returns (advance src.tokens) s t (s.moveTo src rest) := by
  refine (returns_isAtEnd h).bind ((returns_modify _ s).bind ?_)
  rw [← h.moveTo_tail]
  exact returns_previous h

theorem exists_returns_advance (h : s.At src []) : ∃ t, Returns (advance src.tokens) s t s := by
  obtain ⟨t, ht⟩ := exists_returns_previous h
  exact ⟨t, (returns_isAtEnd h).bind ht⟩

theorem returns_check (h : s.At src rest) (kind : TokenKind) :
    Returns (check src.tokens kind) s (rest.head?.any (·.kind = kind)) s := by
  refine (returns_isAtEnd h).bind ?_
  cases rest with
  | nil => exact returns_pure _ _
  | cons t rest => exact (returns_peek h).bind (returns_pure _ _)

theorem returns_matchKinds (h : s.At src (t :: rest)) {kinds : List TokenKind}
    (ht : t.kind ∈ kinds) : Returns (matchKinds src.tokens kinds) s true (s.moveTo src rest) := by
  induction kinds with
  | nil => cases ht
  | cons kind kinds ih =>
    rw [matchKinds]
    refine (returns_check h kind).bind ?_
    by_cases hk : t.kind = kind
    · simp only [List.head?_cons, Option.any_some, hk, decide_true, if_true]
      exact (returns_advance h).bind (returns_pure _ _)
    · simp only [List.head?_cons, Option.any_some, hk, decide_false, Bool.false_eq_true, if_false]
      exact ih ((List.mem_cons.mp ht).resolve_left hk)

theorem returns_matchKinds_none (h : s.At src rest) {kinds : List TokenKind}
    (ht : ∀ t ∈ rest.head?, t.kind ∉ kinds) : Returns (matchKinds src.tokens kinds) s false s := by
  induction kinds with
  | nil => exact returns_pure _ _
  | cons kind kinds ih =>
    have hk : rest.head?.any (·.kind = kind) = false := by
      cases rest with
      | nil => rfl
      | cons t rest =>
        have hne : t.kind ≠ kind := fun hkind => ht t rfl (hkind ▸ List.mem_cons_self)
        simpa using hne
    have hcheck := returns_check h kind
    rw [hk] at hcheck
    rw [matchKinds]
    exact hcheck.bind (ih fun t hmem hkinds => ht t hmem (List.mem_cons_of_mem _ hkinds))

theorem SyntaxError.diagnostic_of_token {fault : SyntaxFault} (ht : t.kind ≠ .eof) (eof : Token) :
    SyntaxError.diagnostic eof ⟨fault, some t⟩ = errorAt t fault := by
  simp [SyntaxError.diagnostic, SyntaxError.location, errorAt, ht]

/-- An error at the next token stands at the end if no token remains. -/
theorem Cursor.At.diagnostic_eq (h : s.At src rest) (fault : SyntaxFault) :
    SyntaxError.diagnostic src.eof ⟨fault, rest.head?⟩ =
      errorAt (rest.head?.getD src.eof) fault := by
  cases rest with
  | nil => simp [SyntaxError.diagnostic, SyntaxError.location, errorAt, src.eof_kind]
  | cons t rest => exact SyntaxError.diagnostic_of_token h.kind_ne src.eof

end Places

section Recovery

variable {src : Stream} {s : Cursor} {rest : List Token} {clock : Nat}

theorem returns_skip_nil (h : s.At src []) (hclock : 0 < clock) :
    Returns (skip src.tokens clock) s () s := by
  obtain ⟨clock, rfl⟩ : ∃ n, clock = n + 1 := ⟨clock - 1, by omega⟩
  rw [skip]
  exact (returns_isAtEnd h).bind (returns_pure _ _)

/-- Behind a token that has been passed, skipping goes where reading resumes. -/
theorem returns_skip {t : Token} (h : s.At src (t :: rest)) (hclock : rest.length < clock) :
    Returns (skip src.tokens clock) (s.moveTo src rest) () (s.moveTo src (resume (t :: rest))) := by
  induction rest generalizing s t clock with
  | nil =>
    have hresume : resume [t] = [] := by simp [resume]
    rw [hresume]
    exact returns_skip_nil (Cursor.at_moveTo h.tail s) hclock
  | cons u rest ih =>
    obtain ⟨clock, rfl⟩ : ∃ n, clock = n + 1 := ⟨clock - 1, by omega⟩
    have hnext := Cursor.at_moveTo h.tail s
    rw [skip]
    refine (returns_isAtEnd hnext).bind ((returns_previous h).bind ?_)
    by_cases hsemicolon : t.kind = .semicolon
    · have hresume : resume (t :: u :: rest) = u :: rest := by simp [resume, hsemicolon]
      rw [if_pos hsemicolon, hresume]
      exact returns_pure _ _
    rw [if_neg hsemicolon]
    refine (returns_peek hnext).bind ?_
    by_cases hstarts : u.kind.startsStatement = true
    · have hresume : resume (t :: u :: rest) = u :: rest := by simp [resume, hstarts]
      rw [hresume]
      simp only [List.head?_cons, Option.getD_some, hstarts, if_true]
      exact returns_pure _ _
    · have hresume : resume (t :: u :: rest) = resume (u :: rest) := by
        rw [resume]
        simp [hsemicolon, hstarts]
      rw [hresume]
      simp only [List.head?_cons, Option.getD_some, hstarts, Bool.false_eq_true, if_false]
      refine (returns_advance hnext).bind ?_
      exact ih hnext (by simpa using hclock)

theorem resume_suffix_self (rest : List Token) : resume rest <:+ rest := by
  cases rest with
  | nil => exact List.suffix_refl _
  | cons t rest => exact (resume_suffix t rest).trans (List.suffix_cons t rest)

theorem returns_synchronize (h : s.At src rest) (hclock : rest.length < clock) :
    Returns (synchronize src.tokens clock) s ()
      ((s.moveTo src (resume rest)).log (.resumed (rest.length - (resume rest).length)
        ((resume rest).head?.getD src.eof).line)) := by
  have hafter := Cursor.at_moveTo ((resume_suffix_self rest).trans h.suffix) s
  have hle := (resume_suffix_self rest).length_le
  have hmoved : ∃ t s₁, Returns (advance src.tokens) s t s₁ ∧
      Returns (skip src.tokens clock) s₁ () (s.moveTo src (resume rest)) := by
    cases rest with
    | nil =>
      obtain ⟨t, ht⟩ := exists_returns_advance h
      have hstay : s.moveTo src (resume []) = s := h.eq_moveTo.symm
      rw [hstay]
      exact ⟨t, s, ht, returns_skip_nil h hclock⟩
    | cons t rest =>
      refine ⟨t, _, returns_advance h, returns_skip h ?_⟩
      rw [List.length_cons] at hclock
      omega
  obtain ⟨t, s₁, hadvance, hskip⟩ := hmoved
  have hskipped : (s.moveTo src (resume rest)).position - s.position =
      rest.length - (resume rest).length := by
    have hstart := h.position
    have hend := hafter.position
    omega
  have hforward : s.position ≤ (s.moveTo src (resume rest)).position := by
    have hstart := h.position
    have hend := hafter.position
    omega
  have hdifference := returns_difference hforward (s.moveTo src (resume rest))
  rw [hskipped] at hdifference
  exact (returns_get s).bind (hadvance.bind (hskip.bind ((returns_get _).bind
    (hdifference.bind ((returns_peek hafter).bind (returns_modify _ _))))))

end Recovery

end Treewalk
