import LoptVllm.KVCache.Hash

/-!
# What block hashes separate

The hash function is assumed to be injective, and `NONE_HASH` to be no hash. Equal block hashes
then have the same tokens before them, and the same keys. The keys are one list of texts without
tags, so that the same list can come from different LoRA names, identifiers and salts. They have no
key for an empty salt, for the place of an item, and for the type of the embeddings.
-/

namespace LoptVllm.KVCache

open List Function Nat ExtraKey RequestInput Option

open HashChain

variable {δ : Type}

namespace RequestInput

/-- The multimodal item that token `t` is a placeholder of, and where it starts. -/
def placeholderAt (x : RequestInput) (t : ℕ) : Option (String × ℕ) :=
  (x.mmFeatures.find? fun f => f.offset ≤ t ∧ t < f.stop).map fun f => (f.identifier, f.offset)

/-- The LoRA name, the salt, and the items and embeddings of the first `n` tokens are the same. -/
structure SameExtras (x y : RequestInput) (n : ℕ) : Prop where
  loraName : x.loraName = y.loraName
  cacheSalt : x.cacheSalt = y.cacheSalt
  placeholders : ∀ t < n, x.placeholderAt t = y.placeholderAt t
  embeds : (x.promptEmbeds.map fun e => (e.dtype, e.rows.take n)) =
    y.promptEmbeds.map fun e => (e.dtype, e.rows.take n)

/-- What two requests should have in common when they share the blocks of the first `n` tokens. -/
structure SamePrefix (x y : RequestInput) (n : ℕ) : Prop extends SameExtras x y n where
  tokens : x.tokens.take n = y.tokens.take n

/-- The identifiers of the items that block `b` touches, when it is hashed. -/
def identifiers (x : RequestInput) (blockSize b : ℕ) : List String :=
  (visited x.mmFeatures blockSize (x.firstBlock blockSize b) b).map MultiModalFeature.identifier

/-- The salt, if it is not empty and block `b` is the first one. -/
def salts (x : RequestInput) (b : ℕ) : List String :=
  if b = 0 then x.cacheSalt.toList.filter (· ≠ "") else []

/-- The LoRA name, the identifiers and the salt, one after another, and the bytes of the embeddings
are the same in every block up to `i`. -/
def SameKeys (x y : RequestInput) (blockSize i : ℕ) : Prop :=
  ∀ b ≤ i, x.loraName.toList ++ x.identifiers blockSize b ++ x.salts b =
      y.loraName.toList ++ y.identifiers blockSize b ++ y.salts b ∧
    x.embedBytes blockSize b = y.embedBytes blockSize b

/-- The ways in which a text of one request stands for something else in the other one. -/
inductive Mistaken (x y : RequestInput) (blockSize i : ℕ) : Prop
  /-- Only `x` has a LoRA name, and every block of `y` has it as its first identifier or salt. -/
  | loraName (name : String) (hx : x.loraName = some name) (hy : y.loraName = none)
      (hall : ∀ b ≤ i, y.identifiers blockSize b ++ y.salts b =
        name :: (x.identifiers blockSize b ++ x.salts b))
  /-- Only `x` has a salt, and `y` has it as one more identifier at the end of the first block. -/
  | cacheSalt (salt : String) (hlora : x.loraName = y.loraName) (hx : x.cacheSalt = some salt)
      (hsalt : salt ≠ "") (hy : y.cacheSalt.getD "" = "")
      (hfirst : y.identifiers blockSize 0 = x.identifiers blockSize 0 ++ [salt])
      (hrest : ∀ b ≤ i, b ≠ 0 → x.identifiers blockSize b = y.identifiers blockSize b)

/-- The ways in which requests with the same LoRA name and the same identifiers differ. -/
inductive Unseen (x y : RequestInput) (n : ℕ) : Prop
  /-- One salt is empty, and the other one is missing. -/
  | emptySalt (hx : x.cacheSalt.getD "" = "") (hy : y.cacheSalt.getD "" = "")
      (hne : x.cacheSalt ≠ y.cacheSalt)
  /-- The same items stand in other places, or one of them is left out. -/
  | items (hsalt : x.cacheSalt = y.cacheSalt) (t : ℕ) (ht : t < n)
      (hne : x.placeholderAt t ≠ y.placeholderAt t)
  /-- The same bytes are of another type, or are cut into other rows. -/
  | embeds (hsalt : x.cacheSalt = y.cacheSalt) (e e' : PromptEmbeds) (hx : x.promptEmbeds = some e)
      (hy : y.promptEmbeds = some e') (hne : e.dtype ≠ e'.dtype ∨ e.rows.take n ≠ e'.rows.take n)

/-- The same tokens and embedding bytes, and a text that is mistaken or something unseen. -/
structure Confused (x y : RequestInput) (blockSize i : ℕ) : Prop where
  tokens : x.tokens.take ((i + 1) * blockSize) = y.tokens.take ((i + 1) * blockSize)
  bytes : ∀ b ≤ i, x.embedBytes blockSize b = y.embedBytes blockSize b
  texts : Mistaken x y blockSize i ∨ Mistaken y x blockSize i ∨
    (x.loraName = y.loraName ∧
      (∀ b ≤ i, x.identifiers blockSize b = y.identifiers blockSize b) ∧
        Unseen x y ((i + 1) * blockSize))

/-! ### Confused requests -/

section

variable {x y : RequestInput} {bs i n : ℕ}

theorem salts_of_ne_zero (x : RequestInput) {b : ℕ} (hb : b ≠ 0) : x.salts b = [] := if_neg hb

theorem salts_zero (x : RequestInput) :
    (x.cacheSalt.getD "" = "" ∧ x.salts 0 = []) ∨
      ∃ salt, x.cacheSalt = some salt ∧ salt ≠ "" ∧ x.salts 0 = [salt] := by
  unfold salts
  rw [if_pos rfl]
  cases x.cacheSalt with
  | none => exact .inl ⟨rfl, rfl⟩
  | some salt => by_cases h : salt = "" <;> simp [h]

theorem Mistaken.sameTexts (h : Mistaken x y bs i) : ∀ b ≤ i,
    x.loraName.toList ++ x.identifiers bs b ++ x.salts b =
      y.loraName.toList ++ y.identifiers bs b ++ y.salts b := by
  intro b hb
  cases h with
  | loraName name hx hy hall =>
    rw [hx, hy, append_assoc, append_assoc, hall b hb]
    rfl
  | cacheSalt salt hlora hx hsalt hy hfirst hrest =>
    rw [hlora, append_assoc, append_assoc]
    congr 1
    by_cases hb0 : b = 0
    · subst hb0
      have hsx : x.salts 0 = [salt] := by simp [salts, hx, hsalt]
      have hsy : y.salts 0 = [] := by
        rcases y.salts_zero with ⟨-, hnil⟩ | ⟨s, hs, hne, -⟩
        · exact hnil
        · exact absurd (by simpa [hs] using hy) hne
      rw [hsx, hsy, hfirst, append_nil]
    · rw [hrest b hb hb0, x.salts_of_ne_zero hb0, y.salts_of_ne_zero hb0]

theorem Mistaken.not_sameExtras (h : Mistaken x y bs i) : ¬ SameExtras x y n := by
  intro hsame
  cases h with
  | loraName name hx hy =>
    rw [hsame.loraName, hy] at hx
    cases hx
  | cacheSalt salt _ hx hsalt hy =>
    rw [← hsame.cacheSalt, hx] at hy
    exact hsalt hy

theorem SameExtras.symm (h : SameExtras x y n) : SameExtras y x n :=
  ⟨h.loraName.symm, h.cacheSalt.symm, fun t ht => (h.placeholders t ht).symm, h.embeds.symm⟩

theorem Unseen.salts_eq (h : Unseen x y n) (b : ℕ) : x.salts b = y.salts b := by
  cases h with
  | emptySalt hx hy =>
    unfold salts
    cases hxs : x.cacheSalt <;> cases hys : y.cacheSalt <;> simp_all
  | items hsalt | embeds hsalt => rw [salts, salts, hsalt]

theorem Unseen.not_sameExtras (h : Unseen x y n) : ¬ SameExtras x y n := by
  intro hsame
  cases h with
  | emptySalt _ _ hne => exact hne hsame.cacheSalt
  | items _ t ht hne => exact hne (hsame.placeholders t ht)
  | embeds _ e e' hx hy hne =>
    have he := hsame.embeds
    rw [hx, hy, map_some, map_some, some.injEq, Prod.mk.injEq] at he
    exact hne.elim (· he.1) (· he.2)

/-- Requests with the same LoRA name, salt and bytes differ in their items or in their embeddings. -/
theorem unseen_of_sameSalt (hlora : x.loraName = y.loraName) (hsalt : x.cacheSalt = y.cacheSalt)
    (hbytes : x.embedBytes bs 0 = y.embedBytes bs 0) (h : ¬ SameExtras x y n) : Unseen x y n := by
  by_cases hitems : ∀ t < n, x.placeholderAt t = y.placeholderAt t
  · unfold KeyFields.embedBytes at hbytes
    cases hx : x.promptEmbeds with
    | none =>
      cases hy : y.promptEmbeds with
      | none => exact absurd ⟨hlora, hsalt, hitems, by rw [hx, hy]⟩ h
      | some e' => simp [hx, hy] at hbytes
    | some e =>
      cases hy : y.promptEmbeds with
      | none => simp [hx, hy] at hbytes
      | some e' =>
        refine .embeds hsalt e e' hx hy (not_and_or.1 fun he => h ⟨hlora, hsalt, hitems, ?_⟩)
        rw [hx, hy, map_some, map_some, he.1, he.2]
  · push Not at hitems
    obtain ⟨t, ht, hne⟩ := hitems
    exact .items hsalt t ht hne

/-- With the same LoRA name, the salts tell which texts of the first block are identifiers. -/
theorem mistaken_or_unseen (hlora : x.loraName = y.loraName)
    (htexts : ∀ b ≤ i, x.identifiers bs b ++ x.salts b = y.identifiers bs b ++ y.salts b)
    (hbytes : x.embedBytes bs 0 = y.embedBytes bs 0) (h : ¬ SameExtras x y n) :
    Mistaken x y bs i ∨ Mistaken y x bs i ∨ (x.loraName = y.loraName ∧
      (∀ b ≤ i, x.identifiers bs b = y.identifiers bs b) ∧ Unseen x y n) := by
  have hrest : ∀ b ≤ i, b ≠ 0 → x.identifiers bs b = y.identifiers bs b := fun b hb hb0 => by
    simpa [salts_of_ne_zero, hb0] using htexts b hb
  have hfirst := htexts 0 (zero_le i)
  have hall : x.identifiers bs 0 = y.identifiers bs 0 →
      ∀ b ≤ i, x.identifiers bs b = y.identifiers bs b := fun h0 b hb => by
    by_cases hb0 : b = 0
    · rw [hb0, h0]
    · exact hrest b hb hb0
  rcases x.salts_zero with ⟨hx, hxs⟩ | ⟨salt, hx, hsalt, hxs⟩ <;>
    rcases y.salts_zero with ⟨hy, hys⟩ | ⟨salt', hy, hsalt', hys⟩ <;> rw [hxs, hys] at hfirst
  · -- no salt is a key: they are the same, or one is empty
    rw [append_nil, append_nil] at hfirst
    refine .inr (.inr ⟨hlora, hall hfirst, ?_⟩)
    by_cases hsame : x.cacheSalt = y.cacheSalt
    · exact unseen_of_sameSalt hlora hsame hbytes h
    · exact .emptySalt hx hy hsame
  · exact .inr (.inl (.cacheSalt salt' hlora.symm hy hsalt' hx (by rw [← hfirst, append_nil])
      fun b hb hb0 => (hrest b hb hb0).symm))
  · exact .inl (.cacheSalt salt hlora hx hsalt hy (by rw [hfirst, append_nil]) hrest)
  · obtain ⟨hids, hsame⟩ := append_inj' hfirst rfl
    have hsalts : x.cacheSalt = y.cacheSalt := by rw [hx, hy, singleton_inj.1 hsame]
    exact .inr (.inr ⟨hlora, hall hids, unseen_of_sameSalt hlora hsalts hbytes h⟩)

/-- Requests with the same tokens and keys are confused if and only if they differ otherwise. -/
theorem confused_iff : Confused x y bs i ↔
    x.tokens.take ((i + 1) * bs) = y.tokens.take ((i + 1) * bs) ∧ SameKeys x y bs i ∧
      ¬ SameExtras x y ((i + 1) * bs) := by
  constructor
  · rintro ⟨htokens, hbytes, h⟩
    refine ⟨htokens, ?_⟩
    rcases h with h | h | ⟨hlora, hids, h⟩
    · exact ⟨fun b hb => ⟨h.sameTexts b hb, hbytes b hb⟩, h.not_sameExtras⟩
    · exact ⟨fun b hb => ⟨(h.sameTexts b hb).symm, hbytes b hb⟩, fun hs => h.not_sameExtras hs.symm⟩
    · exact ⟨fun b hb => ⟨by rw [hlora, hids b hb, h.salts_eq], hbytes b hb⟩, h.not_sameExtras⟩
  · rintro ⟨htokens, hkeys, h⟩
    refine ⟨htokens, fun b hb => (hkeys b hb).2, ?_⟩
    have htexts := fun b hb => (hkeys b hb).1
    cases hx : x.loraName with
    | none =>
      cases hy : y.loraName with
      | none =>
        have hkind := mistaken_or_unseen (hx.trans hy.symm) (by simpa [hx, hy] using htexts)
          (hkeys 0 (zero_le i)).2 h
        rwa [hx, hy] at hkind
      | some name => exact .inr (.inl (.loraName name hy hx (by simpa [hx, hy] using htexts)))
    | some name =>
      cases hy : y.loraName with
      | none =>
        exact .inl (.loraName name hx hy fun b hb => by simpa [hx, hy] using (htexts b hb).symm)
      | some name' =>
        have hname : name = name' := by
          simpa [hx, hy] using congrArg head? (htexts 0 (zero_le i))
        subst hname
        have hkind := mistaken_or_unseen (hx.trans hy.symm) (by simpa [hx, hy] using htexts)
          (hkeys 0 (zero_le i)).2 h
        rwa [hx, hy] at hkind

/-- Requests without items and embeddings, both with or both without a LoRA name and a salt, are not
confused. -/
theorem not_confused (hlora : x.loraName.isSome = y.loraName.isSome) (hx : x.mmFeatures = [])
    (hy : y.mmFeatures = []) (hx' : x.promptEmbeds = none) (hsalt : x.cacheSalt ≠ some "")
    (hsalt' : y.cacheSalt ≠ some "") : ¬ Confused x y bs i := by
  have hnil : ∀ (z : RequestInput) b, z.mmFeatures = [] → z.identifiers bs b = [] := by
    intro z b hz
    simp [identifiers, visited, hz]
  rintro ⟨-, -, h⟩
  have hmist : ∀ {u v : RequestInput}, u.loraName.isSome = v.loraName.isSome → u.mmFeatures = [] →
      v.mmFeatures = [] → ¬ Mistaken u v bs i := by
    intro u v hlora hu hv h
    cases h with
    | loraName name hx hy => simp [hx, hy] at hlora
    | cacheSalt salt _ _ _ _ hfirst => simp [hnil u 0 hu, hnil v 0 hv] at hfirst
  rcases h with h | h | ⟨-, -, h⟩
  · exact hmist hlora hx hy h
  · exact hmist hlora.symm hy hx h
  · cases h with
    | emptySalt h1 h2 hne =>
      cases hxs : x.cacheSalt <;> cases hys : y.cacheSalt <;> simp_all
    | items _ t _ hne => simp [placeholderAt, hx, hy] at hne
    | embeds _ e _ he => rw [hx'] at he; cases he

end

end RequestInput

/-- The texts among the keys. -/
def ExtraKey.text? : ExtraKey → Option String
  | .str s => some s
  | .bytes _ => none

theorem filterMap_text? (texts : List String) (bytes : Option (List UInt8)) :
    (texts.map str ++ bytes.toList.map ExtraKey.bytes).filterMap text? = texts := by
  cases bytes <;> simp [text?, comp_def]

/-- Texts and bytes are told apart. -/
theorem packKeys_inj {texts texts' : List String} {bytes bytes' : Option (List UInt8)} :
    packKeys texts bytes = packKeys texts' bytes' ↔ texts = texts' ∧ bytes = bytes' := by
  constructor
  · intro h
    have hlist : texts.map str ++ bytes.toList.map ExtraKey.bytes =
        texts'.map str ++ bytes'.toList.map ExtraKey.bytes := by
      unfold packKeys at h
      split_ifs at h with h1 h2 h2
      · rw [List.isEmpty_iff.1 h1, List.isEmpty_iff.1 h2]
      · exact some.inj h
    have htext := congrArg (List.filterMap text?) hlist
    rw [filterMap_text?, filterMap_text?] at htext
    exact ⟨htext, by cases bytes <;> cases bytes' <;> simp_all⟩
  · rintro ⟨rfl, rfl⟩
    rfl

theorem take_eq_iff_blocks {α : Type*} {l l' : List α} {bs : ℕ} (n : ℕ) :
    l.take (n * bs) = l'.take (n * bs) ↔
      ∀ b < n, (l.drop (b * bs)).take bs = (l'.drop (b * bs)).take bs := by
  constructor
  · intro h b hb
    have hle : b * bs + bs ≤ n * bs := by
      rw [← add_one_mul]
      exact mul_le_mul_right _ hb
    have hslice : ∀ m : List α, (m.drop (b * bs)).take bs =
        ((m.take (n * bs)).take (b * bs + bs)).drop (b * bs) := by
      intro m
      rw [take_take, min_eq_left hle, drop_take, Nat.add_sub_cancel_left]
    rw [hslice, hslice, h]
  · intro h
    induction n with
    | zero => simp
    | succ n ih =>
      rw [add_one_mul, take_add, take_add, ih fun b hb => h b (hb.trans n.lt_succ_self),
        h n n.lt_succ_self]

section

variable {hasher : BlockHasher δ} {x y : RequestInput} {r s : Request δ}

/-- **Equal block hashes** are those of the same tokens with the same keys. -/
theorem getElem?_blockHashes_eq_iff (hinj : Function.Injective2 hasher.hashFunction)
    (hnone : ∀ p c, hasher.hashFunction p c ≠ hasher.noneHash)
    (hx : x.build hasher = .ok r) (hy : y.build hasher = .ok s) {i : ℕ}
    (hi : i < r.blockHashes.length) (hi' : i < s.blockHashes.length) :
    r.blockHashes[i]? = s.blockHashes[i]? ↔
      x.tokens.take ((i + 1) * hasher.blockSize) = y.tokens.take ((i + 1) * hasher.blockSize) ∧
        x.SameKeys y hasher.blockSize i := by
  rw [build_eq_chain hx, length_chain] at hi
  rw [build_eq_chain hy, length_chain] at hi'
  rw [build_eq_chain hx, build_eq_chain hy,
    getElem?_chain_eq_iff hinj hnone hi hi', and_iff_right rfl, take_eq_iff_blocks]
  rw [length_map, length_range] at hi hi'
  rw [← map_take, ← map_take, take_range, take_range, min_eq_left hi, min_eq_left hi', map_inj_left]
  simp only [mem_range, content, KeyFields.content, Prod.mk.injEq, packKeys_inj, forall_and,
    SameKeys, Nat.lt_succ_iff]
  rfl

/-- **Block hashes separate requests that are not confused.** Whenever the hashes of block `i` are
equal the requests have everything in common, if and only if no text of one is mistaken for something
else in the other, and nothing that no key tells differs. -/
theorem separates_iff (hinj : Function.Injective2 hasher.hashFunction)
    (hnone : ∀ p c, hasher.hashFunction p c ≠ hasher.noneHash)
    (hx : x.build hasher = .ok r) (hy : y.build hasher = .ok s) {i : ℕ}
    (hi : i < r.blockHashes.length) (hi' : i < s.blockHashes.length) :
    (r.blockHashes[i]? = s.blockHashes[i]? → x.SamePrefix y ((i + 1) * hasher.blockSize)) ↔
      ¬ x.Confused y hasher.blockSize i := by
  rw [getElem?_blockHashes_eq_iff hinj hnone hx hy hi hi', confused_iff]
  constructor
  · rintro h ⟨htokens, hkeys, hextras⟩
    exact hextras (h ⟨htokens, hkeys⟩).toSameExtras
  · rintro h ⟨htokens, hkeys⟩
    by_contra hsame
    exact h ⟨htokens, hkeys, fun hextras => hsame ⟨hextras, htokens⟩⟩

end

/-- The contents of the blocks up to one. -/
abbrev Transcript : Type := List (List ℕ × Option (List ExtraKey))

/-- A hasher whose digests are what was hashed. -/
def transcriptHasher : BlockHasher Transcript where
  blockSize := 2
  blockSize_pos := Nat.two_pos
  hashFunction p c := c :: p
  noneHash := []

theorem transcriptHasher_injective : Function.Injective2 transcriptHasher.hashFunction := by
  intro p p' c c' h
  obtain ⟨hc, hp⟩ := cons.inj h
  exact ⟨hp, hc⟩

/-- The block hashes of a prompt of one block without items and embeddings. -/
theorem build_transcriptHasher (lora salt : Option String) :
    build transcriptHasher ⟨⟨none, [], lora, salt⟩, some [1, 2], []⟩ = .ok
      ⟨⟨none, [], lora, salt⟩, [1, 2],
        [[([1, 2], packKeys (lora.toList ++ salt.toList.filter (· ≠ "")) none)]]⟩ := by
  have hchain : ([] : List Transcript) =
    chain transcriptHasher.hashFunction transcriptHasher.noneHash [] := rfl
  have hhash := transcriptHasher.requestBlockHasher_eq
    ⟨⟨none, [], lora, salt⟩, [1, 2], []⟩ hchain (zero_le _)
  simp only [build, Request.new, getD_some, hhash]
  have htexts : KeyFields.texts ⟨none, [], lora, salt⟩ 2 0 0 =
      lora.toList ++ salt.toList.filter (· ≠ "") := by
    simp [KeyFields.texts, visited]
  rw [← htexts]
  rfl

theorem separates_iff_two_loraNames :
    ((⟨⟨none, [], some "a", none⟩, [1, 2], [[([1, 2], packKeys ["a"] none)]]⟩ :
        Request Transcript).blockHashes[0]? =
      (⟨⟨none, [], some "b", none⟩, [1, 2], [[([1, 2], packKeys ["b"] none)]]⟩ :
        Request Transcript).blockHashes[0]? →
      SamePrefix ⟨⟨none, [], some "a", none⟩, some [1, 2], []⟩
        ⟨⟨none, [], some "b", none⟩, some [1, 2], []⟩ 2) ↔
    ¬ Confused ⟨⟨none, [], some "a", none⟩, some [1, 2], []⟩
        ⟨⟨none, [], some "b", none⟩, some [1, 2], []⟩ 2 0 :=
  separates_iff transcriptHasher_injective (fun p c => cons_ne_nil c p)
    (build_transcriptHasher (some "a") none) (build_transcriptHasher (some "b") none)
    one_pos one_pos

/-- The LoRA name of one request is the salt of the other, and they share their first block. -/
theorem loraName_collides_with_cacheSalt : ∃ r s : Request Transcript,
      build transcriptHasher ⟨⟨none, [], some "a", none⟩, some [1, 2], []⟩ = .ok r ∧
      build transcriptHasher ⟨⟨none, [], none, some "a"⟩, some [1, 2], []⟩ = .ok s ∧
      r.blockHashes[0]? = some [([1, 2], some [.str "a"])] ∧
      s.blockHashes[0]? = r.blockHashes[0]? ∧ r.loraName ≠ s.loraName ∧ r.cacheSalt ≠ s.cacheSalt :=
  ⟨_, _, build_transcriptHasher (some "a") none, build_transcriptHasher none (some "a"), rfl, rfl,
    by decide, by decide⟩

end LoptVllm.KVCache
