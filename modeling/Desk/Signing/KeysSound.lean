import Desk.Signing.Sidecar
import Desk.Lib.JsonRound
import Std.Data.String.ToInt

/-!
# Lists Desk writes

The list of accepted keys is read back from its lines, and a list grows by one
accepted key at a time.
-/

namespace Desk.Signing

/-! ## One key -/

theorem json_plain (k : DeskPublicKey) : k.json.Plain := by
  unfold DeskPublicKey.json Json.optText
  split_ifs <;> exact ⟨trivial, trivial, ⟨_, rfl⟩, by simp [Json.PlainMembers, Json.Plain]⟩

theorem json_nesting (k : DeskPublicKey) : Json.nesting k.json ≤ Json.maxNesting := by
  unfold DeskPublicKey.json Json.optText
  split_ifs <;> simp [Json.nesting, Json.nestingMembers, Json.maxNesting]

theorem setMember_names : foldName "keyId" ≠ foldName "publicKey" ∧ foldName "at" ≠ foldName "publicKey" ∧
    foldName "at" ≠ foldName "keyId" ∧ foldName "trail" ≠ foldName "publicKey" ∧ foldName "trail" ≠ foldName "keyId" ∧
    foldName "trail" ≠ foldName "at" := by
  decide

/-- Sequences a Go `int64` holds. -/
def Held (k : DeskPublicKey) : Prop := -2 ^ 63 ≤ k.at_ ∧ k.at_ < 2 ^ 63

theorem toInt?_toString (n : Int) : (toString n).toInt? = some n := by
  rw [String.toInt?_eq_some_iff]
  cases n with
  | ofNat a => exact .inl ⟨a, Nat.toNat?_repr a, rfl⟩
  | negSucc a => exact .inr ⟨(a + 1).repr, rfl, a + 1, Nat.toNat?_repr (a + 1), rfl⟩

theorem setInt_toString {n : Int} (h : -2 ^ 63 ≤ n ∧ n < 2 ^ 63) (old : Int) : setInt (.num (toString n)) old = some n := by
  simp only [setInt, toInt?_toString, if_pos h]

theorem unmarshalKey_marshal {k : DeskPublicKey} (h : Held k) : unmarshalKey k.json.marshal = some k := by
  obtain ⟨h1, h2, h3, h4, h5, h6⟩ := setMember_names
  rw [unmarshalKey, Json.parse_marshal (json_plain k) (json_nesting k)]
  unfold DeskPublicKey.json Json.optText
  split_ifs with ht
  all_goals
    simp only [List.cons_append, List.nil_append, List.foldlM_cons, List.foldlM_nil, setMember, if_true, if_neg h1,
      if_neg h2, if_neg h3, if_neg h4, if_neg h5, if_neg h6, setText, setInt_toString h, Option.map_some,
      Option.bind_eq_bind, Option.bind_some, Option.pure_def]
  rw [← ht]

/-! ## Accepted lists -/

/-- What reading asks of a key after those it has read. -/
structure Admits (keys : List DeskPublicKey) (key : DeskPublicKey) : Prop where
  held : Held key
  check : key.check = none
  takes : takesOver keys key = true
  fresh : ∀ k ∈ keys, k.publicKey ≠ key.publicKey

inductive Accepted : List DeskPublicKey → Prop
  | nil : Accepted []
  | concat {keys : List DeskPublicKey} {key : DeskPublicKey} (before : Accepted keys) (admits : Admits keys key) :
      Accepted (keys ++ [key])

theorem readKeys_append (keys : List DeskPublicKey) (l l' : List (List UInt8)) :
    readKeys keys (l ++ l') = readKeys keys l >>= fun read => readKeys read l' := by
  induction l generalizing keys with
  | nil => rfl
  | cons line rest ih =>
    rw [List.cons_append, readKeys, readKeys]
    cases unmarshalKey line with
    | none => rfl
    | some key =>
      cases hc : key.check with
      | some problem =>
        simp only [hc]
        split_ifs <;> rfl
      | none =>
        simp only [hc]
        split_ifs
        · rfl
        · rfl
        · rfl
        · exact ih (keys ++ [key])

theorem readKeys_admits {keys : List DeskPublicKey} {key : DeskPublicKey} (a : Admits keys key) :
    readKeys keys [key.json.marshal] = .ok (keys ++ [key]) := by
  have hline : key.line = key.json.marshal ++ [newline] := rfl
  have hfresh : (keys.any fun k => k.publicKey == key.publicKey) = false := by
    simpa [List.any_eq_false] using a.fresh
  simp only [readKeys, unmarshalKey_marshal a.held, hline, a.check, a.takes, hfresh, ne_eq, not_true_eq_false, if_false,
    Bool.not_true, Bool.false_eq_true]

theorem Accepted.read {keys : List DeskPublicKey} (a : Accepted keys) :
    readKeys [] (keys.map fun k => k.json.marshal) = .ok keys := by
  induction a with
  | nil => rfl
  | concat before admits ih =>
    rw [List.map_append, readKeys_append, ih, List.map_singleton]
    simp only [bind, Except.bind, readKeys_admits admits]

theorem keysLines_eq {keys : List DeskPublicKey} (h : keys ≠ []) :
    keysLines keys = [newline].intercalate (keys.map fun k => k.json.marshal) ++ [newline] := by
  induction keys with
  | nil => exact absurd rfl h
  | cons k keys ih =>
    cases keys with
    | nil => simp [keysLines, DeskPublicKey.line]
    | cons k' keys =>
      have ih := ih (by simp)
      rw [keysLines, List.flatMap_cons]
      rw [keysLines] at ih
      rw [ih, List.map_cons, List.map_cons, List.map_cons, List.intercalate_cons_cons]
      simp [DeskPublicKey.line]

/-- The lines of an accepted list of at most the keys Desk keeps are read back. -/
theorem Accepted.parse {keys : List DeskPublicKey} (a : Accepted keys) (hne : keys ≠ []) (hmax : keys.length ≤ maxDeskKeys) :
    parseDeskKeys (keysLines keys) = .ok keys := by
  have hsplit : (keysLines keys).dropLast.splitOn newline = keys.map fun k => k.json.marshal := by
    rw [keysLines_eq hne, List.dropLast_concat]
    apply List.splitOn_intercalate
    · intro l hl
      obtain ⟨k, -, rfl⟩ := List.mem_map.mp hl
      exact Json.newline_not_mem_marshal (json_plain k)
    · simpa using hne
  have hlast : (keysLines keys).getLast? = some newline := by
    rw [keysLines_eq hne, List.getLast?_concat]
  have hlen : ¬maxDeskKeys < (keys.map fun k => k.json.marshal).length := by
    rw [List.length_map]
    omega
  rw [parseDeskKeys, hlast, hsplit]
  simp only [ne_eq, not_true_eq_false, if_false, if_neg hlen, a.read]

/-! ## Lists that are read -/

theorem setMember_held {k k' : DeskPublicKey} {m : String × Json} (hk : Held k) (h : setMember k m = some k') : Held k' := by
  have hint : ∀ n, setInt m.2 k.at_ = some n → -2 ^ 63 ≤ n ∧ n < 2 ^ 63 := by
    intro n hn
    unfold setInt at hn
    split at hn
    · split at hn
      · split at hn
        · next hrange =>
          cases hn
          exact hrange
        · cases hn
      · cases hn
    · cases hn
      exact hk
    · cases hn
  unfold setMember at h
  split_ifs at h
  · obtain ⟨_, _, rfl⟩ := Option.map_eq_some_iff.mp h
    exact hk
  · obtain ⟨_, _, rfl⟩ := Option.map_eq_some_iff.mp h
    exact hk
  · obtain ⟨n, hn, rfl⟩ := Option.map_eq_some_iff.mp h
    exact hint n hn
  · obtain ⟨_, _, rfl⟩ := Option.map_eq_some_iff.mp h
    exact hk
  · cases h
    exact hk

theorem unmarshalKey_held {raw : List UInt8} {key : DeskPublicKey} (h : unmarshalKey raw = some key) : Held key := by
  have hzero : Held {} := ⟨by decide, by decide⟩
  unfold unmarshalKey at h
  split at h
  · next members hparse =>
    clear hparse
    generalize ({} : DeskPublicKey) = k at h hzero
    induction members generalizing k with
    | nil =>
      cases h
      exact hzero
    | cons m rest ih =>
      rw [List.foldlM_cons] at h
      obtain ⟨k', hk', hrest⟩ := Option.bind_eq_some_iff.mp h
      exact ih k' hrest (setMember_held hzero hk')
  · cases h
    exact hzero
  · cases h

/-- The keys that are read are accepted, and their lines are the ones Desk writes. -/
theorem readKeys_ok {keys read : List DeskPublicKey} {lines : List (List UInt8)} (a : Accepted keys)
    (h : readKeys keys lines = .ok read) :
    Accepted read ∧ ∃ more, read = keys ++ more ∧ lines = more.map fun k => k.json.marshal := by
  induction lines generalizing keys with
  | nil =>
    cases h
    exact ⟨a, [], (List.append_nil _).symm, rfl⟩
  | cons line rest ih =>
    rw [readKeys] at h
    split at h
    · cases h
    · next key hkey =>
      cases hcheck : key.check with
      | some problem =>
        rw [hcheck] at h
        split_ifs at h
      | none =>
        rw [hcheck] at h
        split_ifs at h with hform htakes hfresh
        have hline : key.json.marshal = line := List.append_cancel_right (not_not.mp hform)
        have admits : Admits keys key :=
          { held := unmarshalKey_held hkey
            check := hcheck
            takes := by simpa using htakes
            fresh := by simpa using hfresh }
        obtain ⟨haccepted, more, hread, hlines⟩ := ih (a.concat admits) h
        refine ⟨haccepted, key :: more, ?_, ?_⟩
        · rw [hread, List.append_assoc, List.singleton_append]
        · rw [List.map_cons, hline, hlines]

/-- Desk reads the text it writes for a list it accepts, and no other text. -/
theorem parseDeskKeys_iff (data : List UInt8) (keys : List DeskPublicKey) :
    parseDeskKeys data = .ok keys ↔
      (Accepted keys ∧ keys ≠ [] ∧ keys.length ≤ maxDeskKeys) ∧ data = keysLines keys := by
  constructor
  · intro h
    unfold parseDeskKeys at h
    split_ifs at h with hend
    dsimp only at h
    split_ifs at h with hmax
    obtain ⟨haccepted, more, hread, hlines⟩ := readKeys_ok .nil h
    rw [List.nil_append] at hread
    subst hread
    have hne : keys ≠ [] := by
      rintro rfl
      exact List.splitOn_ne_nil newline data.dropLast hlines
    have hlen : keys.length ≤ maxDeskKeys := by
      rw [hlines, List.length_map] at hmax
      omega
    refine ⟨⟨haccepted, hne, hlen⟩, ?_⟩
    rw [keysLines_eq hne, ← hlines, List.intercalate_splitOn]
    exact (List.dropLast_append_getLast? newline (not_not.mp hend)).symm
  · rintro ⟨⟨haccepted, hne, hmax⟩, rfl⟩
    exact haccepted.parse hne hmax

end Desk.Signing
