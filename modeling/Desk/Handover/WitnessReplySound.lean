import Desk.Handover.WitnessReply

/-!
# No part of a token is kept

The scan passes every string that can be decoded from an answer, except those in nested
JSON that is not shorter than the text it stands in (`decoded_clean`). An answer is kept
where the scan finds nothing (`ask_secret`). Nested JSON of an answer in UTF-8 is shorter.
-/

namespace Desk

namespace Witness

open Json (Decoder ValueIn size)
open JsonScan (runes)

/-! ## What is decoded -/

/-- No part stands in a text. -/
def Clean (parts : List (List UInt8)) (text : List UInt8) : Prop := ∀ part ∈ parts, ¬part <:+: text

/-- A string or a name of a JSON value of a text. -/
def StringIn (data : List UInt8) (s : String) : Prop := ∃ v, ValueIn v (runes 0 data) ∧ s ∈ v.texts

/-- A string that is itself JSON and begins with a brace, a bracket or a quote. -/
structure Nested (s : String) : Prop where
  begins : begins (nestedOf s) = true
  parses : ∃ v, Json.parseChars (nestedOf s).toList = some v

/-- A string decoded from a text, or from the nested JSON of a string decoded from it. -/
inductive Decoded : List UInt8 → String → Prop
  | first {data : List UInt8} {s : String} (h : StringIn data s) : Decoded data s
  | again {data : List UInt8} {t s : String} (ht : StringIn data t) (hn : Nested t) (h : Decoded (bytesOf (nestedOf t)) s) :
      Decoded data s

/-- A string decoded out of nested JSON that is not shorter than the text it stands in. -/
inductive Hidden : List UInt8 → String → Prop
  | first {data : List UInt8} {t s : String} (ht : StringIn data t) (hn : Nested t) (hlong : data.length ≤ len (nestedOf t))
      (h : Decoded (bytesOf (nestedOf t)) s) : Hidden data s
  | again {data : List UInt8} {t s : String} (ht : StringIn data t) (hn : Nested t) (h : Hidden (bytesOf (nestedOf t)) s) :
      Hidden data s

theorem Hidden.decoded {data : List UInt8} {s : String} (h : Hidden data s) : Decoded data s := by
  induction h with
  | first ht hn _ h => exact .again ht hn h
  | again ht hn _ ih => exact .again ht hn ih

/-! ## The scan -/

theorem clean_of_contains {parts : List (List UInt8)} {text : List UInt8} (h : contains parts text = false) : Clean parts text := by
  intro part hpart hin
  have := List.any_eq_false.mp h part hpart
  exact this (decide_eq_true hin)

theorem clean_nil {parts : List (List UInt8)} (h : [] ∉ parts) : Clean parts [] := by
  intro part hpart hin
  rw [List.infix_nil.mp hin] at hpart
  exact h hpart

theorem nil_notMem_partsOf (token : List UInt8) : [] ∉ partsOf token := by
  unfold partsOf
  split
  · exact List.not_mem_nil
  · rename_i htoken
    intro h
    rcases List.mem_cons.mp h with h | h
    · exact htoken h.symm
    · exact absurd (List.mem_filter.mp h).2 (by decide)

/-- JSON is longer than the character it begins with. -/
theorem Nested.long {s : String} (h : Nested s) : 1 < len (nestedOf s) := by
  obtain ⟨hbegins, v, hv⟩ := h
  by_contra hshort
  have hsize : len (nestedOf s) = size (nestedOf s).toList := by rw [size, String.ofList_toList]
  unfold Witness.begins at hbegins
  cases hchars : (nestedOf s).toList with
  | nil =>
    rw [hchars] at hbegins
    cases hbegins
  | cons c rest =>
    rw [hchars] at hbegins hv hsize
    have hc := c.utf8Size_pos
    have hrest : rest = [] := by
      by_contra hne
      have := Json.size_pos hne
      rw [Json.size_cons] at hsize
      omega
    subst hrest
    simp only [List.head?_cons, Option.any_some, Bool.or_eq_true, beq_iff_eq] at hbegins
    have hnone : Json.parseChars [c] = none := by
      rcases hbegins with (rfl | rfl) | rfl
      · rfl
      · rfl
      · rfl
    rw [hnone] at hv
    cases hv

theorem texts_of_stringIn {data : List UInt8} {s : String} (h : StringIn data s) : s ∈ (Decoder.open_ (runes 0 data)).texts := by
  obtain ⟨v, hv, hs⟩ := h
  exact Json.texts_of_valueIn hv s hs

/-- What the scan does with each string it passes. -/
theorem logicalCredential_false {parts : List (List UInt8)} {data : List UInt8} (h : logicalCredential parts data = false)
    {s : String} (hs : StringIn data s) :
    Clean parts (bytesOf s) ∧
      (1 < len (nestedOf s) ∧ len (nestedOf s) < data.length ∧ begins (nestedOf s) = true →
        logicalCredential parts (bytesOf (nestedOf s)) = false) := by
  rw [logicalCredential] at h
  have htext := List.any_eq_false.mp h s (texts_of_stringIn hs)
  simp only [Bool.or_eq_true, not_or, Bool.not_eq_true] at htext
  obtain ⟨⟨_, hclean⟩, hnested⟩ := htext
  refine ⟨clean_of_contains hclean, fun hshorter => ?_⟩
  rw [dif_pos hshorter] at hnested
  exact hnested

theorem decoded_clean {parts : List (List UInt8)} {data : List UInt8} {s : String} (hs : Decoded data s)
    (h : logicalCredential parts data = false) : Clean parts (bytesOf s) ∨ Hidden data s := by
  induction hs with
  | first hs => exact .inl (logicalCredential_false h hs).1
  | @again data t s ht hn hs ih =>
    by_cases hshort : len (nestedOf t) < data.length
    · have hnested := (logicalCredential_false h ht).2 ⟨hn.long, hshort, hn.begins⟩
      rcases ih hnested with hclean | hhidden
      · exact .inl hclean
      · exact .inr (.again ht hn hhidden)
    · exact .inr (.first ht hn (Nat.le_of_not_lt hshort) hs)

theorem carriesCredential_false {token : List UInt8} {header : Header} {body : List UInt8}
    (h : carriesCredential token header body = false) :
    Clean (partsOf token) body ∧ (∀ e ∈ header, Clean (partsOf token) (headerLine e)) ∧
      logicalCredential (partsOf token) body = false := by
  unfold carriesCredential at h
  simp only [Bool.or_eq_false_iff] at h
  obtain ⟨⟨⟨_, hbody⟩, hheader⟩, hlogical⟩ := h
  refine ⟨clean_of_contains hbody, fun e he => ?_, hlogical⟩
  exact clean_of_contains (Bool.eq_false_iff.mpr (List.any_eq_false.mp hheader e he))

theorem reasonOf_clean (body token : List UInt8) :
    Clean (partsOf token) (bytesOf (reasonOf body token)) ∧
      (reasonOf body token = "" ∨ witnessReasonForm (reasonOf body token) = true) := by
  have hempty : Clean (partsOf token) (bytesOf "") := clean_nil (nil_notMem_partsOf token)
  unfold reasonOf
  split
  · split
    · rename_i hreason
      simp only [Bool.and_eq_true, Bool.not_eq_true'] at hreason
      exact ⟨(carriesCredential_false hreason.2).1, .inr hreason.1⟩
    · exact ⟨hempty, .inl rfl⟩
  · exact ⟨hempty, .inl rfl⟩

/-! ## Answers -/

/-- A reply with something of its answer to keep or to show. -/
def Kept (reply : WitnessReply) : Prop := reply.error ≠ "" ∨ reply.statements ≠ [] ∨ reply.original.isSome = true

/-- No part of the token is kept of an answer. -/
structure Secret (token : List UInt8) (header : Header) (body : List UInt8) (reply : WitnessReply) : Prop where
  raw : Kept reply → Clean (partsOf token) body
  lines : Kept reply → ∀ e ∈ header, Clean (partsOf token) (headerLine e)
  decoded : Kept reply → ∀ s, Decoded body s → Clean (partsOf token) (bytesOf s)
  credential : reply.credential = true → reply.reached = false ∧ ¬Kept reply
  reason : reply.credential = true → Clean (partsOf token) (bytesOf reply.reason) ∧
    (reply.reason = "" ∨ witnessReasonForm reply.reason = true)

theorem readRefusal_credential (reply : WitnessReply) (status : Int) (members : List (String × List Char))
    (sentence reason : String) : (readRefusal reply status members sentence reason).credential = reply.credential := by
  unfold readRefusal
  split
  · split
    · rfl
    · split
      · rfl
      · rfl
      · simp only
        split
        · rfl
        · split <;> rfl
  · split <;> rfl

theorem readWitnessReply_credential (status : Int) (header : Header) (body : List UInt8) (empty : Bool) :
    (readWitnessReply status header body empty).credential = false := by
  unfold readWitnessReply
  split
  · split
    · rfl
    · split
      · rfl
      · split <;> rfl
  · split
    · rfl
    · split
      · rfl
      · split
        · split
          · rfl
          · exact readRefusal_credential _ _ _ _ _
        · rfl

/-- What an answer is read as, but for when to ask again. -/
structure SameReply (reply reply' : WitnessReply) : Prop where
  reached : reply.reached = reply'.reached
  reason : reply.reason = reply'.reason
  error : reply.error = reply'.error
  credential : reply.credential = reply'.credential
  statements : reply.statements = reply'.statements
  original : reply.original = reply'.original

variable (parseTime : List Char → Option Int) (status received : Int) (header : Header) (body token : List UInt8) (empty : Bool)

theorem ask_credential (h : carriesCredential token header body = true) :
    SameReply (ask parseTime (some ⟨status, header, some body, received⟩) empty token)
      { credential := true, reason := reasonOf body token } := by
  unfold ask
  simp only [if_pos h]
  split <;> exact ⟨rfl, rfl, rfl, rfl, rfl, rfl⟩

theorem ask_read (h : carriesCredential token header body = false) :
    (ask parseTime (some ⟨status, header, some body, received⟩) empty token).credential = false ∧
      (ask parseTime (some ⟨status, header, some body, received⟩) empty token).error =
        (readWitnessReply status header body empty).error := by
  have hread := readWitnessReply_credential status header body empty
  unfold ask
  simp only [h, Bool.false_eq_true, if_false]
  split
  · split <;> exact ⟨hread, rfl⟩
  · split <;> exact ⟨hread, rfl⟩

/-- Where anything is kept of an answer, no part of the token is, but in what the scan does not pass. -/
theorem ask_secret :
    (¬Kept (ask parseTime (some ⟨status, header, some body, received⟩) empty token) →
      Secret token header body (ask parseTime (some ⟨status, header, some body, received⟩) empty token)) ∧
    (Kept (ask parseTime (some ⟨status, header, some body, received⟩) empty token) →
      (Secret token header body (ask parseTime (some ⟨status, header, some body, received⟩) empty token) ↔
        ∀ s, Hidden body s → Clean (partsOf token) (bytesOf s))) := by
  generalize hreply : ask parseTime (some ⟨status, header, some body, received⟩) empty token = reply
  cases hcarries : carriesCredential token header body with
  | true =>
    have hsame := ask_credential parseTime status received header body token empty hcarries
    rw [hreply] at hsame
    have hnothing : ¬Kept reply := by
      rintro (h | h | h)
      · exact h hsame.error
      · exact h hsame.statements
      · rw [hsame.original] at h
        cases h
    refine ⟨fun _ => ?_, fun hkept => absurd hkept hnothing⟩
    refine ⟨fun h => absurd h hnothing, fun h => absurd h hnothing, fun h => absurd h hnothing, fun _ => ?_, fun _ => ?_⟩
    · exact ⟨hsame.reached, hnothing⟩
    · rw [hsame.reason]
      exact reasonOf_clean body token
  | false =>
    have hcredential := (ask_read parseTime status received header body token empty hcarries).1
    rw [hreply] at hcredential
    obtain ⟨hraw, hlines, hlogical⟩ := carriesCredential_false hcarries
    have hfalse : ¬reply.credential = true := by
      rw [hcredential]
      exact Bool.false_ne_true
    refine ⟨fun hnot => ?_, fun hkept => ⟨fun hsecret s hs => hsecret.decoded hkept s hs.decoded, fun hclean => ?_⟩⟩
    · exact ⟨fun h => absurd h hnot, fun h => absurd h hnot, fun h => absurd h hnot, fun h => absurd h hfalse,
        fun h => absurd h hfalse⟩
    · refine ⟨fun _ => hraw, fun _ => hlines, fun _ s hs => ?_, fun h => absurd h hfalse, fun h => absurd h hfalse⟩
      rcases decoded_clean hs hlogical with h | h
      · exact h
      · exact hclean s h

/-- A submission keeps no more than the answer it asked for. -/
theorem submit_kept (response : Option Response) (h : Kept (submit parseTime response token)) :
    Kept (ask parseTime response false token) := by
  unfold submit at h
  simp only at h
  split at h
  · rcases h with h | h | h
    · exact absurd rfl h
    · exact absurd rfl h
    · exact .inr (.inr h)
  · exact h

/-! ## Answers in UTF-8 -/

theorem len_nestedOf (s : String) : len (nestedOf s) ≤ len s := by
  have hsub : (trim isSpace s.toList).Sublist s.toList :=
    (List.rdropWhile_prefix isSpace _).sublist.trans (List.dropWhile_sublist isSpace)
  have hlen := len_ofList_le hsub
  rw [String.ofList_toList] at hlen
  exact hlen

/-- Nested text is shorter than the text of its literal. -/
theorem nested_shorter {x s : String} (h : StringIn (bytesOf x) s) : len (nestedOf s) < len x := by
  have hfits := Decoder.texts_size _ s (texts_of_stringIn h)
  have hsize : size (Decoder.open_ (runes 0 (bytesOf x))).input = len x := by
    show size (runes 0 (bytesOf x)) = len x
    rw [JsonScan.runes_bytesOf, size, String.ofList_toList]
  have := len_nestedOf s
  omega

theorem not_hidden (x s : String) : ¬Hidden (bytesOf x) s := by
  intro h
  generalize hdata : bytesOf x = data at h
  induction h generalizing x with
  | @first data t s ht hn hlong h =>
    subst hdata
    have := nested_shorter ht
    rw [length_bytesOf] at hlong
    omega
  | again ht hn h ih => exact ih _ rfl

/-- No part of the token is kept of an answer in UTF-8. -/
theorem ask_secret_text (x : String) :
    Secret token header (bytesOf x) (ask parseTime (some ⟨status, header, some (bytesOf x), received⟩) empty token) := by
  cases hcarries : carriesCredential token header (bytesOf x) with
  | true =>
    have hsame := ask_credential parseTime status received header (bytesOf x) token empty hcarries
    have hnothing : ¬Kept (ask parseTime (some ⟨status, header, some (bytesOf x), received⟩) empty token) := by
      unfold Kept
      rw [hsame.error, hsame.statements, hsame.original]
      simp
    refine ⟨fun h => absurd h hnothing, fun h => absurd h hnothing, fun h => absurd h hnothing, fun _ => ⟨hsame.reached, hnothing⟩, ?_⟩
    intro _
    rw [hsame.reason]
    exact reasonOf_clean (bytesOf x) token
  | false =>
    obtain ⟨hraw, hlines, hlogical⟩ := carriesCredential_false hcarries
    have hfalse : ¬(ask parseTime (some ⟨status, header, some (bytesOf x), received⟩) empty token).credential = true := by
      rw [(ask_read parseTime status received header (bytesOf x) token empty hcarries).1]
      exact Bool.false_ne_true
    refine ⟨fun _ => hraw, fun _ => hlines, fun _ s hs => ?_, fun h => absurd h hfalse, fun h => absurd h hfalse⟩
    exact (decoded_clean hs hlogical).resolve_right (not_hidden x s)

/-- Nor of what a submission is answered in UTF-8. -/
theorem submit_secret_text (x : String) :
    Secret token header (bytesOf x) (submit parseTime (some ⟨status, header, some (bytesOf x), received⟩) token) := by
  have hask := ask_secret_text parseTime status received header token false x
  have hkept := submit_kept parseTime token (some ⟨status, header, some (bytesOf x), received⟩)
  refine ⟨fun h => hask.raw (hkept h), fun h => hask.lines (hkept h), fun h => hask.decoded (hkept h), ?_, ?_⟩
  · intro h
    unfold submit at h ⊢
    simp only at h ⊢
    split at h
    · cases h
    · rename_i hone
      rw [if_neg hone]
      exact hask.credential h
  · intro h
    unfold submit at h ⊢
    simp only at h ⊢
    split at h
    · cases h
    · rename_i hone
      rw [if_neg hone]
      exact hask.reason h

/-! ## Nested text that grows -/

theorem stringIn_of_parse {data : List UInt8} {s : String}
    (h : (Json.parseChars (runes 0 data)).any (fun v => v.texts.contains s) = true) : StringIn data s := by
  obtain ⟨v, hv, hs⟩ := (Option.any_eq_true _ _).mp h
  exact ⟨v, Json.valueIn_of_parse hv, List.contains_iff_mem.mp hs⟩

def growingToken : List UInt8 := bytesOf "secret-token-1"

def growingHeader : Header := [(bytesOf "Content-Type", bytesOf "application/json")]

/-- A sentence of nested JSON with bytes that are no characters, each read as three. -/
def growingBody : List UInt8 :=
  bytesOf "\x7b\"error\":\"\x7b\\\"" ++ List.replicate 16 0xff ++
    bytesOf "\\\":\\\"\\\\u0073ecret-token-1\\\"\x7d\",\"reason\":\"bad\"\x7d"

def growingSentence : String :=
  String.ofList ("\x7b\"".toList ++ List.replicate 16 '\ufffd' ++ "\":\"\\u0073ecret-token-1\"\x7d".toList)

theorem growing_texts : (Decoder.open_ (runes 0 growingBody)).texts = ["error", growingSentence, "reason", "bad"] := by
  have hread : (Json.readValue 20 2 (runes 0 growingBody)).map (fun r => (r.1.texts, r.2)) =
      some (["error", growingSentence, "reason", "bad"], []) := by decide +kernel
  obtain ⟨⟨v, rest⟩, hv, heq⟩ := Option.map_eq_some_iff.mp hread
  obtain ⟨htexts, hrest⟩ := Prod.mk.inj heq
  simp only at htexts hrest
  rw [Json.texts_value hv, htexts, hrest, Decoder.texts_nil, List.append_nil]

theorem growing_carries : carriesCredential growingToken growingHeader growingBody = false := by
  have hlogical : logicalCredential (partsOf growingToken) growingBody = false := by
    have hnone : ∀ s ∈ ["error", growingSentence, "reason", "bad"],
        (bearerLike s.toList || contains (partsOf growingToken) (bytesOf s)) = false ∧
          ¬(1 < len (nestedOf s) ∧ len (nestedOf s) < growingBody.length ∧ begins (nestedOf s) = true) := by
      decide +kernel
    rw [logicalCredential, growing_texts, List.any_eq_false]
    intro s hs
    obtain ⟨hclean, hlong⟩ := hnone s hs
    rw [dif_neg hlong, hclean]
    exact Bool.false_ne_true
  unfold carriesCredential
  rw [hlogical]
  decide +kernel

theorem growing_kept : ¬Secret growingToken growingHeader growingBody
    (ask (fun _ => none) (some ⟨400, growingHeader, some growingBody, 0⟩) false growingToken) := by
  intro hsecret
  have hkept : Kept (ask (fun _ => none) (some ⟨400, growingHeader, some growingBody, 0⟩) false growingToken) := by
    refine .inl ?_
    rw [(ask_read _ _ _ _ _ _ _ growing_carries).2]
    decide +kernel
  have hsentence : StringIn growingBody growingSentence := stringIn_of_parse (by decide +kernel)
  have hnested : Nested growingSentence := ⟨by decide +kernel, Option.isSome_iff_exists.mp (by decide +kernel)⟩
  have hsecretIn : StringIn (bytesOf (nestedOf growingSentence)) "secret-token-1" := stringIn_of_parse (by decide +kernel)
  have hclean := hsecret.decoded hkept "secret-token-1" (.again hsentence hnested (.first hsecretIn))
  exact hclean growingToken (by decide +kernel) (List.infix_refl _)

end Witness

end Desk
