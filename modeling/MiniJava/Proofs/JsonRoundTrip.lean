import MiniJava.Json.Printer
import MiniJava.Json.Reader
import MiniJava.Proofs.TokenKinds

/-!
# Reading back what was written as JSON

* Every string is read back from its escapes (`pieces_escape`), and every number from its digits, if
  the character behind it does not go on with it (`unsigned_toDigits`).
* `Json.tokens` lists the tokens of a value without the layout. They are the tokens of its text, on
  every level (`reads_write`), and the value is read back from them (`readsValue_tokens`).
* So a value is read back from its text, if it holds only what JSON can say (`parse?_pretty`).
-/

namespace MiniJava.Json

/-! ### Strings -/

theorem hexValue?_hexDigit : ∀ n < 16, hexValue? (hexDigit n) = some n := by
  decide

/-- The escape of a control character denotes it. -/
theorem unitPiece?_hexDigit {n : Nat} (h : n < 32) :
    unitPiece? '0' '0' (hexDigit (n / 16)) (hexDigit (n % 16)) = some (.char (Char.ofNat n)) := by
  have hzero : hexValue? '0' = some 0 := rfl
  have hhigh : hexValue? (hexDigit (n / 16)) = some (n / 16) := hexValue?_hexDigit _ (by omega)
  have hlow : hexValue? (hexDigit (n % 16)) = some (n % 16) := hexValue?_hexDigit _ (by omega)
  have hunit : (0 * 16 + 0) * 256 + n / 16 * 16 + n % 16 = n := by omega
  have hhalf : ¬ (0xD800 ≤ n ∧ n < 0xE000) := by omega
  unfold unitPiece?
  simp only [hzero, hhigh, hlow, Option.bind_eq_bind, Option.bind_some, hunit, if_neg hhalf]
  rfl

/-- The escape of a character is read as this character. -/
theorem pieces_escape (c : Char) (cs : List Char) :
    pieces (escape c ++ cs) = (pieces cs).map fun (more, rest) => (.char c :: more, rest) := by
  unfold escape
  split
  case h_8 hquote hslash _ _ _ _ _ =>
    split
    · rename_i hcontrol
      show pieces ('\\' :: 'u' :: '0' :: '0' :: _ :: _ :: cs) = _
      rw [pieces, unitPiece?_hexDigit hcontrol, Char.ofNat_toNat]
      cases pieces cs <;> rfl
    · rename_i hcontrol
      show pieces (c :: cs) = _
      have hraw : ¬ (c = '\\' ∨ c.toNat < 32) := by
        rintro (rfl | h)
        · exact hslash rfl
        · exact hcontrol h
      rw [pieces, if_neg hraw]
      · cases pieces cs <;> rfl
      · exact hquote
      · rintro _ _ _ _ _ rfl
        exact absurd rfl hslash
      · rintro _ _ rfl
        exact absurd rfl hslash
  all_goals
    rw [List.cons_append, List.cons_append, List.nil_append, pieces]
    · cases pieces cs <;> rfl
    · rintro _ _ _ _ _ ⟨⟩

/-- A string is read up to its closing quote. -/
theorem pieces_flatMap_escape (s rest : List Char) :
    pieces (s.flatMap escape ++ '"' :: rest) = some (s.map .char, rest) := by
  induction s with
  | nil => rfl
  | cons c s ih =>
    rw [List.flatMap_cons, List.append_assoc, pieces_escape, ih]
    rfl

theorem join?_map_char (s : List Char) : join? (s.map .char) = some s := by
  induction s with
  | nil => rfl
  | cons c s ih =>
    rw [List.map_cons, join?, ih]
    rfl

/-! ### Numbers -/

/-- What stands behind a value in a text: nothing, a comma or a line break. -/
inductive Behind : List Char → Prop
  | nil : Behind []
  | comma (cs : List Char) : Behind (',' :: cs)
  | newline (cs : List Char) : Behind ('\n' :: cs)

theorem behind_newline (level : Nat) (cs : List Char) : Behind (newline level ++ cs) :=
  .newline _

theorem takeWhile_isDigit_toDigits (n : Nat) {rest : List Char} (h : Behind rest) :
    (Nat.toDigits 10 n ++ rest).takeWhile Char.isDigit = Nat.toDigits 10 n := by
  have hdigits : ∀ c ∈ Nat.toDigits 10 n, c.isDigit = true :=
    fun _ => Nat.isDigit_of_mem_toDigits (by decide) (by decide)
  have hrest : rest.takeWhile Char.isDigit = [] := by
    cases h <;> rfl
  rw [List.takeWhile_append_of_pos hdigits, hrest, List.append_nil]

theorem dropWhile_isDigit_toDigits (n : Nat) {rest : List Char} (h : Behind rest) :
    (Nat.toDigits 10 n ++ rest).dropWhile Char.isDigit = rest := by
  have hdigits : ∀ c ∈ Nat.toDigits 10 n, c.isDigit = true :=
    fun _ => Nat.isDigit_of_mem_toDigits (by decide) (by decide)
  rw [List.dropWhile_append_of_pos hdigits]
  cases h <;> rfl

/-- Zero is the only number whose digits start with a zero. -/
theorem toDigits_eq_zero_of_head? {n : Nat} (h : (Nat.toDigits 10 n).head? = some '0') :
    Nat.toDigits 10 n = ['0'] := by
  obtain ⟨ds, hds⟩ : ∃ ds, Nat.toDigits 10 n = '0' :: ds := List.head?_eq_some_iff.mp h
  have hvalue : Digits.value ds = n := by
    have hn := Digits.value_toDigits n
    rwa [hds, Digits.value_zero_cons] at hn
  by_cases hnil : ds = []
  · rw [hds, hnil]
  · -- the digits behind the zero would be all the digits of the number, and one more of them
    have hdigits : ∀ d ∈ ds, d.isDigit = true := by
      intro d hd
      refine Nat.isDigit_of_mem_toDigits (b := 10) (n := n) (by decide) (by decide) ?_
      rw [hds]
      exact List.mem_cons_of_mem _ hd
    obtain ⟨zeros, hzeros⟩ := Digits.exists_eq_zeros_append hnil hdigits
    have hlength := congrArg List.length hzeros
    rw [hvalue, hds, List.length_append, List.length_cons] at hlength
    omega

/-- A number is read up to its last digit. -/
theorem unsigned_toDigits (n : Nat) {rest : List Char} (h : Behind rest) :
    unsigned (Nat.toDigits 10 n ++ rest) = some (some n, rest) := by
  have hdigits := takeWhile_isDigit_toDigits n h
  have hskip : skipDigits (Nat.toDigits 10 n ++ rest) = some rest := by
    have hne : (Nat.toDigits 10 n).isEmpty = false :=
      List.isEmpty_eq_false_iff.mpr Nat.toDigits_ne_nil
    rw [skipDigits, hdigits, dropWhile_isDigit_toDigits n h, hne]
    rfl
  have hzero : ¬ ((Nat.toDigits 10 n).head? = some '0' ∧ Nat.toDigits 10 n ≠ ['0']) :=
    fun hzero => hzero.2 (toDigits_eq_zero_of_head? hzero.1)
  have hends : endsNumber rest = true := by
    cases h <;> rfl
  unfold unsigned
  simp only [hdigits, hskip, Option.bind_eq_bind, Option.bind_some, if_neg hzero, if_pos hends,
    Digits.value_toDigits]
  rfl

/-! ### Tokens -/

namespace Token

theorem next?_of_isDigit {c : Char} {cs : List Char} (h : c.isDigit = true) :
    next? (c :: cs) = (unsigned (c :: cs)).map fun (value, rest) => (num value, rest) := by
  unfold next?
  split
  case h_12 => cases unsigned (c :: cs) <;> rfl
  all_goals simp_all

/-- The text starts with the tokens `ts`, and what is behind them is read like `rest`. -/
def Reads (cs : List Char) (ts : List Token) (rest : List Char) : Prop :=
  read cs = (ts ++ ·) <$> read rest

theorem reads_nil (cs : List Char) : Reads cs [] cs := by
  unfold Reads
  cases read cs <;> rfl

theorem Reads.trans {cs ds rest : List Char} {ts us : List Token} (h : Reads cs ts ds)
    (h' : Reads ds us rest) : Reads cs (ts ++ us) rest := by
  unfold Reads at *
  rw [h, h']
  cases read rest with
  | none => rfl
  | some vs => exact congrArg some (List.append_assoc ts us vs).symm

theorem reads_of_isSpace {c : Char} (h : isSpace c = true) (cs : List Char) :
    Reads (c :: cs) [] cs := by
  unfold Reads
  rw [read, List.dropWhile_cons_of_pos h, ← read]
  cases read cs <;> rfl

/-- The front token of a text that does not start with a blank. -/
theorem reads_of_next? {c : Char} {cs rest : List Char} {t : Token} (hspace : isSpace c = false)
    (h : next? (c :: cs) = some (t, rest)) : Reads (c :: cs) [t] rest := by
  have hdrop : (c :: cs).dropWhile isSpace = c :: cs :=
    List.dropWhile_cons_of_neg (by simp [hspace])
  unfold Reads
  rw [read]
  split
  · rename_i hnil
    rw [hdrop] at hnil
    cases hnil
  · rename_i c' cs' hcons
    rw [hdrop] at hcons
    obtain ⟨rfl, rfl⟩ := List.cons.inj hcons
    split
    · rename_i hnone
      rw [h] at hnone
      cases hnone
    · rename_i t' rest' hsome
      rw [h] at hsome
      cases hsome
      rfl

theorem reads_newline (level : Nat) (cs : List Char) : Reads (newline level ++ cs) [] cs := by
  have hblanks (n : Nat) : Reads (List.replicate n ' ' ++ cs) [] cs := by
    induction n with
    | zero => exact reads_nil cs
    | succ n ih => exact (reads_of_isSpace rfl _).trans ih
  exact (reads_of_isSpace rfl _).trans (hblanks (2 * level))

theorem reads_quoted (s : String) (rest : List Char) :
    Reads (quoted s ++ rest) [str (some s)] rest := by
  have hnext : next? ('"' :: (s.toList.flatMap escape ++ '"' :: rest)) =
      some (str (some s), rest) := by
    rw [next?, pieces_flatMap_escape]
    show some (str ((join? (s.toList.map .char)).map String.ofList), rest) = _
    rw [join?_map_char, Option.map_some, String.ofList_toList]
  rw [quoted, List.append_assoc, List.cons_append]
  exact reads_of_next? rfl hnext

theorem reads_toDigits (n : Nat) {rest : List Char} (h : Behind rest) :
    Reads (Nat.toDigits 10 n ++ rest) [num (some n)] rest := by
  have hnumber := unsigned_toDigits n h
  obtain ⟨c, cs, hcs⟩ := List.exists_cons_of_ne_nil (Nat.toDigits_ne_nil (b := 10) (n := n))
  have hc : c.isDigit = true := by
    refine Nat.isDigit_of_mem_toDigits (b := 10) (n := n) (by decide) (by decide) ?_
    rw [hcs]
    exact List.mem_cons_self
  have hspace : isSpace c = false := by
    by_contra hblank
    simp only [Bool.not_eq_false, isSpace, Bool.or_eq_true, beq_iff_eq] at hblank
    rcases hblank with ((rfl | rfl) | rfl) | rfl <;> exact absurd hc (by decide)
  rw [hcs, List.cons_append] at hnumber ⊢
  refine reads_of_next? hspace ?_
  rw [next?_of_isDigit hc, hnumber]
  rfl

/-- A name in front of its value. -/
theorem reads_key (key : String) (cs : List Char) :
    Reads (quoted key ++ ([':', ' '] ++ cs)) [str (some key), colon] cs :=
  (reads_quoted key _).trans ((reads_of_next? rfl rfl).trans (reads_of_isSpace rfl cs))

end Token

mutual

/-- The tokens of a value. -/
def tokens : Json → List Token
  | null => [.null]
  | bool b => [.bool b]
  | num n => [.num (some n)]
  | str s => [.str (some s)]
  | arr [] => [.lbracket, .rbracket]
  | arr (item :: items) => .lbracket :: (tokens item ++ (itemTokens items ++ [.rbracket]))
  | obj [] => [.lbrace, .rbrace]
  | obj ((key, value) :: fields) =>
    .lbrace :: .str (some key) :: .colon :: (tokens value ++ (fieldTokens fields ++ [.rbrace]))
  | other => [.null]

/-- The tokens of the items behind the first one. -/
def itemTokens : List Json → List Token
  | [] => []
  | item :: items => .comma :: (tokens item ++ itemTokens items)

/-- The tokens of the fields behind the first one. -/
def fieldTokens : List (String × Json) → List Token
  | [] => []
  | (key, value) :: fields =>
    .comma :: .str (some key) :: .colon :: (tokens value ++ fieldTokens fields)

end

theorem behind_writeItems (level : Nat) (items : List Json) {rest : List Char} (h : Behind rest) :
    Behind (writeItems level items ++ rest) := by
  cases items with
  | nil => exact h
  | cons item items =>
    rw [writeItems]
    exact .comma _

theorem behind_writeFields (level : Nat) (fields : List (String × Json)) {rest : List Char}
    (h : Behind rest) : Behind (writeFields level fields ++ rest) := by
  cases fields with
  | nil => exact h
  | cons field fields =>
    rw [writeFields]
    exact .comma _

open MiniJava.Json.Token in
mutual

/-- The text of a value has the tokens of the value, whatever the level. -/
theorem reads_write (level : Nat) : ∀ (j : Json) {rest : List Char}, Behind rest →
    Reads (j.write level ++ rest) j.tokens rest
  | null, _, _ | other, _, _ => by
    rw [write, tokens]
    exact reads_of_next? rfl rfl
  | bool true, _, _ | bool false, _, _ => by
    rw [write, tokens]
    exact reads_of_next? rfl rfl
  | num n, _, h => by
    rw [write, tokens]
    exact reads_toDigits n h
  | str s, rest, _ => by
    rw [write, tokens]
    exact reads_quoted s rest
  | arr [], _, _ => by
    rw [write, tokens]
    exact (reads_of_next? rfl rfl).trans (reads_of_next? rfl rfl)
  | arr (item :: items), rest, _ => by
    have hclose : Behind (newline level ++ (']' :: rest)) := behind_newline level _
    have hitems := (reads_writeItems (level + 1) items hclose).trans
      ((reads_newline level _).trans (reads_of_next? rfl rfl))
    have hitem := reads_write (level + 1) item (behind_writeItems (level + 1) items hclose)
    rw [write, tokens]
    simp only [List.append_assoc, List.cons_append]
    exact (reads_of_next? rfl rfl).trans ((reads_newline (level + 1) _).trans (hitem.trans hitems))
  | obj [], _, _ => by
    rw [write, tokens]
    exact (reads_of_next? rfl rfl).trans (reads_of_next? rfl rfl)
  | obj ((key, value) :: fields), rest, _ => by
    have hclose : Behind (newline level ++ ('\x7d' :: rest)) := behind_newline level _
    have hfields := (reads_writeFields (level + 1) fields hclose).trans
      ((reads_newline level _).trans (reads_of_next? rfl rfl))
    have hvalue := reads_write (level + 1) value (behind_writeFields (level + 1) fields hclose)
    rw [write, tokens]
    simp only [List.append_assoc, List.cons_append]
    exact (reads_of_next? rfl rfl).trans ((reads_newline (level + 1) _).trans
      ((reads_key key _).trans (hvalue.trans hfields)))

theorem reads_writeItems (level : Nat) : ∀ (items : List Json) {rest : List Char}, Behind rest →
    Reads (writeItems level items ++ rest) (itemTokens items) rest
  | [], rest, _ => by
    rw [writeItems, itemTokens]
    exact reads_nil rest
  | item :: items, _, h => by
    have hitem := reads_write level item (behind_writeItems level items h)
    rw [writeItems, itemTokens]
    simp only [List.append_assoc, List.cons_append]
    exact (reads_of_next? rfl rfl).trans ((reads_newline level _).trans
      (hitem.trans (reads_writeItems level items h)))

theorem reads_writeFields (level : Nat) : ∀ (fields : List (String × Json)) {rest : List Char},
    Behind rest → Reads (writeFields level fields ++ rest) (fieldTokens fields) rest
  | [], rest, _ => by
    rw [writeFields, fieldTokens]
    exact reads_nil rest
  | (key, value) :: fields, _, h => by
    have hvalue := reads_write level value (behind_writeFields level fields h)
    rw [writeFields, fieldTokens]
    simp only [List.append_assoc, List.cons_append]
    exact (reads_of_next? rfl rfl).trans ((reads_newline level _).trans
      ((reads_key key _).trans (hvalue.trans (reads_writeFields level fields h))))

end

/-! ### Values -/

/-- A value does not start with what closes a list. -/
theorem tokens_ne_rbracket (j : Json) (ts us : List Token) : j.tokens ++ ts ≠ .rbracket :: us := by
  intro h
  cases j with
  | arr items => cases items <;> cases h
  | obj fields =>
    cases fields with
    | nil => cases h
    | cons field fields => cases h
  | _ => cases h

section

variable {ts us rest : List Token} {j : Json} {more : List Json}
  {fs : List (Option String × Json)} {key : Option String}

/-- A value is read from the front of the tokens, and `rest` is behind it. -/
def ReadsValue (ts : List Token) (j : Json) (rest : List Token) : Prop :=
  ∃ lt, value ts = some ⟨j, rest, lt⟩

/-- Items and what closes their list are read from the front of the tokens. -/
def ReadsItems (ts : List Token) (items : List Json) (rest : List Token) : Prop :=
  ∃ lt, Json.items ts = some ⟨items, rest, lt⟩

/-- Fields and what closes their object are read from the front of the tokens. -/
def ReadsFields (ts : List Token) (fields : List (Option String × Json)) (rest : List Token) :
    Prop :=
  ∃ lt, Json.fields ts = some ⟨fields, rest, lt⟩

theorem ReadsItems.last (h : ReadsValue ts j (.rbracket :: rest)) : ReadsItems ts [j] rest := by
  obtain ⟨lt, h⟩ := h
  unfold ReadsItems
  rw [items, h]
  exact ⟨_, rfl⟩

theorem ReadsItems.cons (h : ReadsValue ts j (.comma :: us)) (hmore : ReadsItems us more rest) :
    ReadsItems ts (j :: more) rest := by
  obtain ⟨lt, h⟩ := h
  obtain ⟨lt', hmore⟩ := hmore
  have hlt : rest.length < ts.length := Nat.lt_trans lt' (Nat.lt_of_succ_lt lt)
  unfold ReadsItems
  rw [items, h]
  simp only [Option.bind_eq_bind, Option.bind_some, hmore]
  exact ⟨hlt, rfl⟩

theorem ReadsValue.arr (hne : ∀ us, ts ≠ .rbracket :: us) (h : ReadsItems ts more rest) :
    ReadsValue (.lbracket :: ts) (.arr more) rest := by
  obtain ⟨lt, h⟩ := h
  unfold ReadsValue
  rw [value, h]
  · exact ⟨_, rfl⟩
  · exact hne

theorem ReadsFields.last (h : ReadsValue ts j (.rbrace :: rest)) :
    ReadsFields (.str key :: .colon :: ts) [(key, j)] rest := by
  obtain ⟨lt, h⟩ := h
  unfold ReadsFields
  rw [fields, h]
  exact ⟨_, rfl⟩

theorem ReadsFields.cons (h : ReadsValue ts j (.comma :: us)) (hmore : ReadsFields us fs rest) :
    ReadsFields (.str key :: .colon :: ts) ((key, j) :: fs) rest := by
  obtain ⟨lt, h⟩ := h
  obtain ⟨lt', hmore⟩ := hmore
  have hlt : rest.length < ts.length := Nat.lt_trans lt' (Nat.lt_of_succ_lt lt)
  unfold ReadsFields
  rw [fields, h]
  simp only [Option.bind_eq_bind, Option.bind_some, hmore]
  exact ⟨Nat.lt_add_right 2 hlt, rfl⟩

theorem ReadsValue.obj (h : ReadsFields (.str key :: ts) fs rest) :
    ReadsValue (.lbrace :: .str key :: ts) (ofFields fs) rest := by
  obtain ⟨lt, h⟩ := h
  unfold ReadsValue
  rw [value, h]
  · exact ⟨_, rfl⟩
  · rintro _ ⟨⟩

end

/-- The fields with their names as they are read. -/
def namedFields (fields : List (String × Json)) : List (Option String × Json) :=
  fields.map fun (key, value) => (some key, value)

theorem ofFields_namedFields (fields : List (String × Json)) :
    ofFields (namedFields fields) = obj fields := by
  have hmap : (namedFields fields).mapM (fun field => field.1.map (·, field.2)) = some fields := by
    induction fields with
    | nil => rfl
    | cons field fields ih =>
      rw [namedFields, List.map_cons, List.mapM_cons, ← namedFields, ih]
      rfl
  unfold ofFields
  split
  · rename_i fields' hfields
    rw [Option.some.inj (hfields.symm.trans hmap)]
  · rename_i hnone
    cases hnone.symm.trans hmap

mutual

/-- A value is read back from its tokens. -/
theorem readsValue_tokens : ∀ j : Json, j.Plain → ∀ rest : List Token,
    ReadsValue (j.tokens ++ rest) j rest
  | null, _, _ | bool _, _, _ | num _, _, _ | str _, _, _ => by
    rw [tokens, List.cons_append]
    unfold ReadsValue
    rw [value]
    exact ⟨_, rfl⟩
  | arr [], _, _ | obj [], _, _ => by
    rw [tokens, List.cons_append, List.cons_append]
    unfold ReadsValue
    rw [value]
    exact ⟨_, rfl⟩
  | arr (item :: more), h, rest => by
    have hitems := readsItems_tokens more h.2 (readsValue_tokens item h.1) rest
    rw [tokens]
    simp only [List.cons_append, List.append_assoc, List.nil_append]
    exact .arr (tokens_ne_rbracket item _) hitems
  | obj ((key, value) :: more), h, rest => by
    have hfields := readsFields_tokens more h.2 key (readsValue_tokens value h.1) rest
    rw [tokens, ← ofFields_namedFields]
    simp only [List.cons_append, List.append_assoc, List.nil_append]
    exact .obj hfields

theorem readsItems_tokens : ∀ more : List Json, AllPlain more → ∀ {item : Json},
    (∀ rest, ReadsValue (item.tokens ++ rest) item rest) → ∀ rest : List Token,
      ReadsItems (item.tokens ++ (itemTokens more ++ .rbracket :: rest)) (item :: more) rest
  | [], _, _, hitem, rest => .last (hitem (.rbracket :: rest))
  | next :: more, h, _, hitem, rest => by
    have hmore := readsItems_tokens more h.2 (readsValue_tokens next h.1) rest
    rw [itemTokens, List.cons_append, List.append_assoc]
    exact .cons (hitem _) hmore

theorem readsFields_tokens : ∀ more : List (String × Json), FieldsPlain more →
    ∀ (key : String) {value : Json}, (∀ rest, ReadsValue (value.tokens ++ rest) value rest) →
      ∀ rest : List Token,
        ReadsFields
          (.str (some key) :: .colon :: (value.tokens ++ (fieldTokens more ++ .rbrace :: rest)))
          (namedFields ((key, value) :: more)) rest
  | [], _, _, _, hvalue, rest => .last (hvalue (.rbrace :: rest))
  | (name, next) :: more, h, _, _, hvalue, rest => by
    have hmore := readsFields_tokens more h.2 name (readsValue_tokens next h.1) rest
    rw [fieldTokens, List.cons_append, List.cons_append, List.cons_append, List.append_assoc]
    exact .cons (hvalue _) hmore

end

/-- A value that holds only what JSON can say is read back from its text. -/
theorem parse?_pretty {j : Json} (h : j.Plain) : parse? j.pretty = some j := by
  have htokens : Token.read (j.write 0) = some j.tokens := by
    have hreads := reads_write 0 j .nil
    rw [List.append_nil] at hreads
    rw [hreads, Token.read]
    exact congrArg some (List.append_nil _)
  have hvalue := readsValue_tokens j h []
  rw [List.append_nil] at hvalue
  obtain ⟨lt, hvalue⟩ := hvalue
  unfold parse?
  rw [pretty, String.toList_ofList, htokens]
  simp only [Option.bind_eq_bind, Option.bind_some, hvalue]
  rfl

end MiniJava.Json
