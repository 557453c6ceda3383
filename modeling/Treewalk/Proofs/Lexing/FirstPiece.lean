import Mathlib.Data.List.TakeWhile
import Treewalk.Piece.Cut
import Treewalk.Proofs.Lexing.Classes

/-! The piece cut from the front of a text. Its first character decides how it is cut, the piece
belongs to the class that it names, and a piece cut from its own text is the whole of it. -/

namespace Treewalk

theorem mem_operators_of_operatorKind? {c : Char} {kind : TokenKind}
    (h : operatorKind? c = some kind) : (String.ofList [c], kind) ∈ operators := by
  unfold operatorKind? at h
  split at h <;> cases h <;> decide

theorem mem_operators_of_operatorEqualKind? {c : Char} {kind : TokenKind}
    (h : operatorEqualKind? c = some kind) : (String.ofList [c, '='], kind) ∈ operators := by
  unfold operatorEqualKind? at h
  split at h <;> cases h <;> decide

theorem operatorPiece?_eq_none_iff {c : Char} {cs : List Char} :
    operatorPiece? c cs = none ↔ operatorKind? c = none := by
  have hequal : ∀ kind, operatorEqualKind? c = some kind → operatorKind? c ≠ none := by
    intro kind h
    unfold operatorEqualKind? at h
    split at h <;> cases h <;> decide
  unfold operatorPiece?
  split
  · rename_i kind _ h
    simp [hequal kind h]
  · split
    · rename_i h
      have hslash : operatorKind? c ≠ none := by
        rw [h.1]
        decide
      simp [hslash]
    · simp

section FirstCharacter

/-! The first character of a text decides between blanks, strings, operators, numbers and words. -/

theorem separates_iff {c : Char} : separates c = true ↔ IsSeparator c := by
  simp [separates, IsSeparator, or_assoc]

theorem not_continuesName_of_separates {c : Char} (h : separates c = true) :
    continuesName c = false := by
  rcases separates_iff.mp h with rfl | rfl | rfl | rfl <;> decide

theorem not_continuesName_of_operatorKind? {c : Char} {kind : TokenKind}
    (h : operatorKind? c = some kind) :
    separates c = false ∧ c ≠ '"' ∧ continuesName c = false := by
  unfold operatorKind? at h
  split at h <;> cases h <;> decide

theorem continuesName_of_isDigit {c : Char} (h : c.isDigit = true) : continuesName c = true := by
  simp [continuesName, isNumeric, h]

theorem toNat_of_isDigit {c : Char} (h : c.isDigit = true) : 48 ≤ c.toNat ∧ c.toNat ≤ 57 := by
  have hval : c.val ≥ '0'.val ∧ c.val ≤ '9'.val := by
    simpa only [Char.isDigit, Bool.and_eq_true, decide_eq_true_eq] using h
  exact ⟨UInt32.le_iff_toNat_le.mp hval.1, UInt32.le_iff_toNat_le.mp hval.2⟩

theorem toNat_of_isAlpha {c : Char} (h : c.isAlpha = true) : 65 ≤ c.toNat := by
  have hcases : c.isUpper = true ∨ c.isLower = true := Bool.or_eq_true_iff.mp h
  rcases hcases with hupper | hlower
  · have hval : c.val ≥ 'A'.val := (of_decide_eq_true hupper).1
    exact UInt32.le_iff_toNat_le.mp hval
  · have hval : c.val ≥ 'a'.val := of_decide_eq_true (Bool.and_eq_true_iff.mp hlower).1
    have hle : 97 ≤ c.toNat := UInt32.le_iff_toNat_le.mp hval
    omega

theorem not_isDigit_of_startsName {c : Char} (h : startsName c = true) : c.isDigit = false := by
  by_contra hd
  have hrange := toNat_of_isDigit (by simpa using hd)
  rw [startsName, isAlphabetic_of_ascii (by omega), Bool.or_eq_true_iff] at h
  rcases h with halpha | hunderscore
  · have hle := toNat_of_isAlpha halpha
    omega
  · rw [beq_iff_eq.mp hunderscore] at hrange
    exact absurd hrange (by decide)

theorem firstPiece_of_separates {c : Char} (h : separates c = true) (cs : List Char) :
    firstPiece c cs = .blank c := by
  simp [firstPiece, h]

theorem firstPiece_quote (cs : List Char) : firstPiece '"' cs = stringPiece cs := by
  simp [firstPiece, separates]

theorem firstPiece_of_operatorPiece? {c : Char} {cs : List Char} {p : Piece}
    (h : operatorPiece? c cs = some p) : firstPiece c cs = p := by
  cases hk : operatorKind? c with
  | none =>
    rw [operatorPiece?_eq_none_iff.mpr hk] at h
    cases h
  | some kind =>
    obtain ⟨hsep, hquote, -⟩ := not_continuesName_of_operatorKind? hk
    simp [firstPiece, hsep, hquote, h]

theorem firstPiece_of_continuesName {c : Char} (h : continuesName c = true) (cs : List Char) :
    firstPiece c cs =
      if c.isDigit then .lexeme .number (c :: numberTail cs)
      else if startsName c then
        .lexeme (wordKind (c :: cs.takeWhile continuesName)) (c :: cs.takeWhile continuesName)
      else .stray c := by
  have hsep : separates c = false := by
    apply Bool.eq_false_iff.mpr
    intro hs
    simp [not_continuesName_of_separates hs] at h
  have hquote : c ≠ '"' := by
    rintro rfl
    revert h
    decide
  have hop : operatorPiece? c cs = none := by
    rw [operatorPiece?_eq_none_iff]
    cases hk : operatorKind? c with
    | none => rfl
    | some kind => simp [(not_continuesName_of_operatorKind? hk).2.2] at h
  simp [firstPiece, hsep, hquote, hop]

theorem firstPiece_of_isDigit {c : Char} (h : c.isDigit = true) (cs : List Char) :
    firstPiece c cs = .lexeme .number (c :: numberTail cs) := by
  rw [firstPiece_of_continuesName (continuesName_of_isDigit h), if_pos h]

theorem firstPiece_of_startsName {c : Char} (h : startsName c = true) (cs : List Char) :
    firstPiece c cs =
      .lexeme (wordKind (c :: cs.takeWhile continuesName)) (c :: cs.takeWhile continuesName) := by
  rw [firstPiece_of_continuesName (continuesName_of_startsName h),
    not_isDigit_of_startsName h, if_neg Bool.false_ne_true, if_pos h]

theorem firstPiece_of_no_start {c : Char} (hsep : ¬ separates c = true) (hquote : c ≠ '"')
    (hop : operatorKind? c = none) (hdigit : ¬ c.isDigit = true) (hname : ¬ startsName c = true)
    (cs : List Char) : firstPiece c cs = .stray c := by
  have hnone : operatorPiece? c cs = none := operatorPiece?_eq_none_iff.mpr hop
  simp [firstPiece, hsep, hquote, hnone, hdigit, hname]

end FirstCharacter

section Class

/-! A piece belongs to the class that it names. -/

theorem isLexeme_of_mem_operators {text : List Char} {kind : TokenKind}
    (h : (String.ofList text, kind) ∈ operators) : IsLexeme kind text := by
  simpa using IsLexeme.operator h

theorem isDigit_of_mem_digits {c : Char} (hc : c.isDigit = true) (cs : List Char) :
    ∀ d ∈ c :: cs.takeWhile Char.isDigit, d.isDigit = true := by
  intro d hd
  rcases List.mem_cons.mp hd with rfl | hd
  · exact hc
  · exact List.mem_takeWhile_imp hd

theorem isLexeme_numberTail {c : Char} (hc : c.isDigit = true) (cs : List Char) :
    IsLexeme .number (c :: numberTail cs) := by
  have hwhole := isDigit_of_mem_digits hc cs
  unfold numberTail fractionPart
  split
  · rename_i d ds _
    split
    · rename_i hd
      have hfraction := isDigit_of_mem_digits hd ds
      exact .fraction (List.cons_ne_nil _ _) hwhole (List.cons_ne_nil _ _) hfraction
    · simpa using IsLexeme.integer (List.cons_ne_nil _ _) hwhole
  · simpa using IsLexeme.integer (List.cons_ne_nil _ _) hwhole

theorem isLexeme_wordKind {c : Char} (hc : startsName c = true) (cs : List Char) :
    IsLexeme (wordKind (c :: cs.takeWhile continuesName)) (c :: cs.takeWhile continuesName) := by
  have hcs : ∀ d ∈ cs.takeWhile continuesName, continuesName d = true := fun d hd =>
    List.mem_takeWhile_imp hd
  generalize hword : c :: cs.takeWhile continuesName = word
  cases hl : keywords.lookup (String.ofList word) with
  | some kind =>
    obtain ⟨before, after, hk, -⟩ := List.lookup_eq_some_iff.mp hl
    rw [wordKind, hl]
    subst hword
    exact .keyword hc hcs (by simp [hk])
  | none =>
    rw [wordKind, hl]
    subst hword
    refine .identifier hc hcs fun kind hk => ?_
    simpa using List.lookup_eq_none_iff.mp hl _ hk

theorem stringPiece_belongs (cs : List Char) :
    (stringPiece cs).Belongs (('"' :: cs).drop (stringPiece cs).text.length) := by
  unfold stringPiece
  split
  · refine IsLexeme.string fun h => ?_
    simpa using List.mem_takeWhile_imp h
  · rename_i h
    exact ⟨⟨cs, rfl, by simpa using h⟩, by simp [Piece.text]⟩

theorem operatorPiece?_belongs {c : Char} {cs rest : List Char} {p : Piece}
    (h : operatorPiece? c cs = some p) : p.Belongs rest := by
  unfold operatorPiece? at h
  split at h
  · rename_i kind _ hkind
    cases h
    exact isLexeme_of_mem_operators (mem_operators_of_operatorEqualKind? hkind)
  · split at h
    · rename_i hslash
      cases h
      obtain ⟨rfl, hhead⟩ := hslash
      obtain ⟨cs, rfl⟩ := List.head?_eq_some_iff.mp hhead
      refine ⟨cs.takeWhile (· != '\n'), by simp, fun hn => ?_⟩
      simpa using List.mem_takeWhile_imp hn
    · obtain ⟨kind, hkind, rfl⟩ := Option.map_eq_some_iff.mp h
      exact isLexeme_of_mem_operators (mem_operators_of_operatorKind? hkind)

end Class

section OwnText

/-! A piece cut from its own text is the whole of it. -/

theorem wordKind_of_mem_keywords {word : List Char} {kind : TokenKind}
    (h : (String.ofList word, kind) ∈ keywords) : wordKind word = kind := by
  have hlookup : ∀ e ∈ keywords, keywords.lookup e.1 = some e.2 := by decide
  rw [wordKind, hlookup _ h]
  rfl

theorem wordKind_of_not_mem_keywords {word : List Char}
    (h : ∀ kind, (String.ofList word, kind) ∉ keywords) : wordKind word = .identifier := by
  have hlookup : keywords.lookup (String.ofList word) = none := by
    rw [List.lookup_eq_none_iff]
    rintro ⟨text, kind⟩ he
    simp only [bne_iff_ne]
    rintro rfl
    exact h kind he
  rw [wordKind, hlookup]
  rfl

theorem numberTail_append {digits : List Char} (h : ∀ d ∈ digits, d.isDigit = true)
    (cs : List Char) : numberTail (digits ++ cs) = digits ++ numberTail cs := by
  simp only [numberTail, List.takeWhile_append_of_pos h, List.dropWhile_append_of_pos h,
    List.append_assoc]

theorem numberTail_point {d : Char} {ds : List Char} (h : ∀ e ∈ d :: ds, e.isDigit = true) :
    numberTail ('.' :: d :: ds) = '.' :: d :: ds := by
  have hd : d.isDigit = true := h d List.mem_cons_self
  have hds : ds.takeWhile Char.isDigit = ds :=
    List.takeWhile_eq_self_iff.mpr fun e he => h e (List.mem_cons_of_mem d he)
  have hpoint : ('.').isDigit = false := by decide
  simp [numberTail, fractionPart, hpoint, hd, hds]

theorem bne_of_not_mem {x : Char} {cs : List Char} (h : x ∉ cs) : ∀ c ∈ cs, (c != x) = true := by
  intro c hc
  simp only [bne_iff_ne]
  rintro rfl
  exact h hc

theorem stringPiece_of_closed {body : List Char} (h : '"' ∉ body) (rest : List Char) :
    stringPiece (body ++ '"' :: rest) = .lexeme .string ('"' :: (body ++ ['"'])) := by
  simp [stringPiece, List.takeWhile_append_of_pos (bne_of_not_mem h)]

theorem stringPiece_of_open {body : List Char} (h : '"' ∉ body) :
    stringPiece body = .openString ('"' :: body) := by
  simp [stringPiece, h]

theorem operatorPiece?_comment (cs : List Char) :
    operatorPiece? '/' ('/' :: cs) = some (.comment ('/' :: '/' :: cs.takeWhile (· != '\n'))) := by
  simp [operatorPiece?, operatorEqualKind?]

theorem firstPiece_of_isLexeme {kind : TokenKind} {c : Char} {cs : List Char}
    (h : IsLexeme kind (c :: cs)) : firstPiece c cs = .lexeme kind (c :: cs) := by
  generalize ht : c :: cs = text at h
  cases h with
  | operator h =>
    have hall : ∀ e ∈ operators, pieces e.1.toList = [.lexeme e.2 e.1.toList] := by decide
    have hp := hall _ h
    simp only [← ht, pieces_cons, List.cons.injEq] at hp
    rw [hp.1, ht]
  | string h =>
    cases ht
    rw [firstPiece_quote, stringPiece_of_closed h]
  | integer _ h =>
    subst ht
    have hd := h c List.mem_cons_self
    rw [firstPiece_of_isDigit hd]
    have hds := numberTail_append (fun d hd => h d (List.mem_cons_of_mem c hd)) []
    rw [List.append_nil] at hds
    rw [hds]
    simp [numberTail, fractionPart]
  | @fraction whole fraction hwne hw hfne hf =>
    obtain ⟨w, ws, rfl⟩ := List.exists_cons_of_ne_nil hwne
    obtain ⟨f, fs, rfl⟩ := List.exists_cons_of_ne_nil hfne
    obtain ⟨rfl, rfl⟩ := List.cons.inj ht
    rw [List.append_eq, firstPiece_of_isDigit (hw c List.mem_cons_self),
      numberTail_append fun d hd => hw d (List.mem_cons_of_mem c hd), numberTail_point hf]
    rfl
  | keyword hc hcs h =>
    cases ht
    rw [firstPiece_of_startsName hc, List.takeWhile_eq_self_iff.mpr hcs,
      wordKind_of_mem_keywords h]
  | identifier hc hcs h =>
    cases ht
    rw [firstPiece_of_startsName hc, List.takeWhile_eq_self_iff.mpr hcs,
      wordKind_of_not_mem_keywords h]

theorem firstPiece_of_isComment {c : Char} {cs : List Char} (h : IsComment (c :: cs)) :
    firstPiece c cs = .comment (c :: cs) := by
  obtain ⟨body, htext, hbody⟩ := h
  obtain ⟨rfl, rfl⟩ := List.cons.inj htext
  rw [firstPiece_of_operatorPiece? (operatorPiece?_comment body),
    List.takeWhile_eq_self_iff.mpr (bne_of_not_mem hbody)]

theorem firstPiece_of_isOpenString {c : Char} {cs : List Char} (h : IsOpenString (c :: cs)) :
    firstPiece c cs = .openString (c :: cs) := by
  obtain ⟨body, htext, hbody⟩ := h
  obtain ⟨rfl, rfl⟩ := List.cons.inj htext
  rw [firstPiece_quote, stringPiece_of_open hbody]

theorem startsNothing_of_firstPiece {c : Char} (h : ∀ cs, firstPiece c cs = .stray c) :
    StartsNothing c := by
  constructor
  · intro hc
    have hp := firstPiece_of_separates (separates_iff.mpr hc) []
    rw [h] at hp
    cases hp
  · intro cs
    refine ⟨fun hc => ?_, fun hc => ?_, fun kind hc => ?_⟩
    · have hp := firstPiece_of_isComment hc
      rw [h] at hp
      cases hp
    · have hp := firstPiece_of_isOpenString hc
      rw [h] at hp
      cases hp
    · have hp := firstPiece_of_isLexeme hc
      rw [h] at hp
      cases hp

theorem firstPiece_belongs (c : Char) (cs : List Char) :
    (firstPiece c cs).Belongs ((c :: cs).drop (firstPiece c cs).text.length) := by
  by_cases hsep : separates c = true
  · rw [firstPiece_of_separates hsep]
    exact separates_iff.mp hsep
  by_cases hquote : c = '"'
  · subst hquote
    rw [firstPiece_quote]
    exact stringPiece_belongs cs
  cases hop : operatorPiece? c cs with
  | some p =>
    rw [firstPiece_of_operatorPiece? hop]
    exact operatorPiece?_belongs hop
  | none =>
    by_cases hdigit : c.isDigit = true
    · rw [firstPiece_of_isDigit hdigit]
      exact isLexeme_numberTail hdigit cs
    by_cases hname : startsName c = true
    · rw [firstPiece_of_startsName hname]
      exact isLexeme_wordKind hname cs
    have hop := operatorPiece?_eq_none_iff.mp hop
    have hstray := firstPiece_of_no_start hsep hquote hop hdigit hname
    rw [hstray]
    exact startsNothing_of_firstPiece hstray

theorem firstPiece_of_startsNothing {c : Char} (h : StartsNothing c) :
    firstPiece c [] = .stray c := by
  have htext : (firstPiece c []).text = [c] := by
    obtain ⟨rest, hrest⟩ := firstPiece_text_prefix c []
    rcases List.append_eq_singleton_iff.mp hrest with ⟨hnil, -⟩ | ⟨htext, -⟩
    · exact absurd hnil (firstPiece_text_ne_nil c [])
    · exact htext
  have hclass := firstPiece_belongs c []
  generalize firstPiece c [] = p at htext hclass
  cases p with
  | blank d =>
    cases htext
    exact absurd hclass h.1
  | comment text =>
    cases htext
    exact absurd hclass (h.2 []).1
  | lexeme kind text =>
    cases htext
    exact absurd hclass ((h.2 []).2.2 kind)
  | stray d =>
    cases htext
    rfl
  | openString text =>
    cases htext
    exact absurd hclass.1 (h.2 []).2.1

theorem firstPiece_of_belongs {p : Piece} {rest : List Char} {c : Char} {cs : List Char}
    (hp : p.Belongs rest) (ht : p.text = c :: cs) : firstPiece c cs = p := by
  cases p with
  | blank d =>
    cases ht
    exact firstPiece_of_separates (separates_iff.mpr hp) []
  | comment text =>
    cases ht
    exact firstPiece_of_isComment hp
  | lexeme kind text =>
    cases ht
    exact firstPiece_of_isLexeme hp
  | stray d =>
    cases ht
    exact firstPiece_of_startsNothing hp
  | openString text =>
    cases ht
    exact firstPiece_of_isOpenString hp.1

end OwnText

end Treewalk
