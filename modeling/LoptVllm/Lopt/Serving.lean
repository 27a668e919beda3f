import LoptVllm.Lopt.Batch

/-!
# Rendering a completion request

The part of `create_completion` that turns the prompt of a request into engine prompts, with and
without the parallel tokenizer, and the `CompletionRenderer` it calls.

With `enable_lopt` the parallel tokenizer is called on `request.prompt`, whatever its form is, and
the renderer gets the resulting `input_ids` in place of the prompt.
-/

namespace LoptVllm.Lopt

open List Option Except HfTokenizer

/-- The forms of the prompt of a `CompletionRequest`. -/
inductive Prompt (α : Type)
  | absent
  | str (s : List α)
  | strs (xs : List (List α))
  | ids (is : List ℤ)
  | idLists (iss : List (List ℤ))

variable {α B R : Type}

/-- The prompt as the value that the code sees. -/
def Prompt.toPy : Prompt α → PyVal α
  | .absent => .none
  | .str s => .str s
  | .strs xs => .list (xs.map .str)
  | .ids is => .ints is
  | .idLists iss => .list (iss.map .ints)

/-- A `CompletionRequest`, as far as it is read here; `B` is the type of encoded embeddings. -/
structure CompletionRequest (α B : Type) where
  prompt : Prompt α
  promptEmbeds : Option (B ⊕ List B)
  addSpecialTokens : Bool
  truncatePromptTokens : Option ℤ
  maxTokens : Option ℤ
  echo : Option Bool
  returnTokenIds : Option Bool
  cacheSalt : Option String

/-- `RenderConfig`. -/
structure RenderConfig where
  maxLength : Option ℤ
  truncatePromptTokens : Option ℤ
  addSpecialTokens : Bool
  cacheSalt : Option String
  needsDetokenization : Bool

/-- A `TokensPrompt` or an `EmbedsPrompt`; the embeddings are the rows of a tensor. -/
inductive EnginePrompt (α R : Type)
  | tokens (promptTokenIds : List (PyVal α)) (cacheSalt : Option String) (prompt : Option (List α))
  | embeds (promptEmbeds : List R) (cacheSalt : Option String)

/-- What an engine prompt gives the model: token ids or embeddings. -/
def EnginePrompt.content : EnginePrompt α R → List (PyVal α) ⊕ List R
  | .tokens promptTokenIds _ _ => .inl promptTokenIds
  | .embeds promptEmbeds _ => .inr promptEmbeds

/-- `l[-k:]` for a positive `k`. -/
def lastRows {β : Type} (k : ℤ) (l : List β) : List β := l.drop (l.length - k.toNat)

/-- `_maybe_apply_truncation`. -/
def maybeApplyTruncation {β : Type} (tokenIds : List β) (truncatePromptTokens : Option ℤ) :
    List β :=
  match truncatePromptTokens with
  | none => tokenIds
  | some k => if k ≥ tokenIds.length then tokenIds else lastRows k tokenIds

/-- A parallel tokenizer that is lossless on strings. On other prompts it is the code. -/
structure LosslessTokenizer (tok : HfTokenizer α) (cfg : ChunkConfig) where
  call : PyVal α → Except PyErr (List (String × PyVal α))
  call_str : ∀ s, ∃ enc, call (.str s) = .ok enc ∧
    getKey enc "input_ids" = .ok (.list [.ints (ids (tok.encode s))])
  call_other : ∀ v, v.isStr = false → call v = tok.parallelCall cfg v false

/-- A lossless tokenizer on strings, put in front of the code. -/
def LosslessTokenizer.ofSerial (tok : HfTokenizer α) (cfg : ChunkConfig) :
    LosslessTokenizer tok cfg where
  call
    | .str s => .ok [("input_ids", .list [.ints (ids (tok.encode s))])]
    | v => tok.parallelCall cfg v false
  call_str s := ⟨_, rfl, rfl⟩
  call_other v hv := by
    cases v with
    | str s => cases hv
    | _ => rfl

/-- A server for completion requests. `loadEmbed` decodes one embedding, `lower` is `str.lower`. -/
structure CompletionServer (α B R : Type) where
  tokenizer : HfTokenizer α
  skipTokenizerInit : Bool
  maxModelLen : ℕ
  maxModelLen_pos : 0 < maxModelLen
  doLowerCase : Bool
  enablePromptEmbeds : Bool
  lower : List α → List α
  decode : List (PyVal α) → List α
  loadEmbed : B → Except PyErr (List R)

namespace CompletionServer

variable (srv : CompletionServer α B R)

/-- The upper bound that `verify_truncate_prompt_tokens` checks. -/
def checkMaxLength (truncatePromptTokens : ℤ) : Option ℤ → Except PyErr (Option ℤ)
  | none => .ok (some truncatePromptTokens)
  | some maxLength =>
    if truncatePromptTokens > maxLength then
      .error (.valueError ("truncate_prompt_tokens=" ++ toString truncatePromptTokens ++
        " cannot be greater than max_length=" ++ toString maxLength ++
        ". Please select a smaller truncation size."))
    else .ok (some truncatePromptTokens)

/-- `verify_truncate_prompt_tokens`. -/
def verifyTruncatePromptTokens (config : RenderConfig) : Except PyErr (Option ℤ) :=
  match config.truncatePromptTokens with
  | none => .ok none
  | some k =>
    if k = 0 then .ok (some 0)
    else checkMaxLength (if k < 0 then srv.maxModelLen else k) config.maxLength

/-- `load_prompt_embeds`. -/
def loadPromptEmbeds (promptEmbeds : B ⊕ List B) (truncatePromptTokens : Option ℤ)
    (cacheSalt : Option String) : Except PyErr (List (EnginePrompt α R)) :=
  if !srv.enablePromptEmbeds then
    .error (.valueError "You must set `--enable-prompt-embeds` to input `prompt_embeds`.")
  else
    let loadAndValidateEmbed := fun embed => do
      let tensor ← srv.loadEmbed embed
      match truncatePromptTokens with
      | none => return EnginePrompt.embeds tensor cacheSalt
      | some k => return EnginePrompt.embeds (lastRows k tensor) cacheSalt
    match promptEmbeds with
    | .inl embed => (loadAndValidateEmbed embed).map fun e => [e]
    | .inr embeds => embeds.mapM loadAndValidateEmbed

/-- `_get_async_tokenizer`. -/
def getAsyncTokenizer : Except PyErr (HfTokenizer α) := if srv.skipTokenizerInit then
    .error (.valueError "No tokenizer available for text input processing")
  else .ok srv.tokenizer

variable (tokenIds : List (PyVal α))

/-- `_create_tokens_prompt`. -/
def createTokensPrompt (maxLength : Option ℤ)
    (cacheSalt : Option String) (prompt : Option (List α)) : Except PyErr (EnginePrompt α R) :=
  match maxLength with
  | none => .ok (.tokens tokenIds cacheSalt prompt)
  | some m =>
    if tokenIds.length > m then
      .error (.valueError ("This model's maximum context length is " ++ toString m ++
        " tokens. However, your request has " ++ toString tokenIds.length ++
        " input tokens. Please reduce the length of the input messages."))
    else .ok (.tokens tokenIds cacheSalt prompt)

/-- The ids that `_create_prompt_from_text` gets from the tokenizer. -/
def textIds (text : List α) (truncatePromptTokens : Option ℤ) (addSpecialTokens : Bool) : List ℤ :=
  let text := if srv.doLowerCase then srv.lower text else text
  match truncatePromptTokens with
  | none => ids (srv.tokenizer.tokens text addSpecialTokens)
  | some k => srv.tokenizer.truncated text addSpecialTokens k.toNat

/-- `_create_prompt_from_text`. -/
def createPromptFromText (text : List α) (config : RenderConfig)
    (truncatePromptTokens : Option ℤ) : Except PyErr (EnginePrompt α R) := do
  let _ ← srv.getAsyncTokenizer
  createTokensPrompt ((srv.textIds text truncatePromptTokens config.addSpecialTokens).map .int)
    config.maxLength config.cacheSalt (some (if srv.doLowerCase then srv.lower text else text))

/-- `_create_prompt_from_token_ids`. -/
def createPromptFromTokenIds (config : RenderConfig)
    (truncatePromptTokens : Option ℤ) : Except PyErr (EnginePrompt α R) := do
  let tokenIds := maybeApplyTruncation tokenIds truncatePromptTokens
  let prompt ← if config.needsDetokenization then
      srv.getAsyncTokenizer.map fun _ => some (srv.decode tokenIds)
    else .ok none
  createTokensPrompt tokenIds config.maxLength config.cacheSalt prompt

/-- `_create_prompt`. -/
def createPrompt (config : RenderConfig) (truncatePromptTokens : Option ℤ) :
    RawPrompt α → Except PyErr (EnginePrompt α R)
  | .tokens promptTokenIds =>
    srv.createPromptFromTokenIds promptTokenIds config truncatePromptTokens
  | .text (.str s) => srv.createPromptFromText s config truncatePromptTokens
  | .text _ => .error (.typeError "")

variable (promptOrPrompts : PyVal α)

/-- `render_prompt`. -/
def renderPrompt (config : RenderConfig) : Except PyErr (List (EnginePrompt α R)) := do
  let truncatePromptTokens ← srv.verifyTruncatePromptTokens config
  if truncatePromptTokens = some 0 then return []
  let prompts ← parseRawPrompts promptOrPrompts
  prompts.mapM (srv.createPrompt config truncatePromptTokens)

variable (promptEmbeds : Option (B ⊕ List B))

/-- The part of `render_prompt_and_embeds` that loads the embeddings. -/
def renderEmbeds (truncatePromptTokens : Option ℤ)
    (cacheSalt : Option String) : Except PyErr (List (EnginePrompt α R)) :=
  match promptEmbeds with
  | none => .ok []
  | some embeds => srv.loadPromptEmbeds embeds truncatePromptTokens cacheSalt

/-- `render_prompt_and_embeds`. -/
def renderPromptAndEmbeds (config : RenderConfig) : Except PyErr (List (EnginePrompt α R)) := do
  let truncatePromptTokens ← srv.verifyTruncatePromptTokens config
  if truncatePromptTokens = some 0 then return []
  let rendered ← srv.renderEmbeds promptEmbeds truncatePromptTokens config.cacheSalt
  match promptOrPrompts with
  | .none => return rendered
  | .str [] => return rendered
  | _ =>
    let tokenPrompts ← srv.renderPrompt promptOrPrompts config
    return rendered ++ tokenPrompts

variable (request : CompletionRequest α B)

/-- `_build_render_config`. -/
def buildRenderConfig : Except PyErr RenderConfig :=
  let tooLong := match request.maxTokens with
    | none => false
    | some m => m > srv.maxModelLen
  if tooLong then
    .error (.valueError ("'max_tokens' (" ++ toString (request.maxTokens.getD 0) ++
      ") cannot be greater than the model's maximum context length (" ++
      toString srv.maxModelLen ++ ")."))
  else .ok
    { maxLength := some (srv.maxModelLen - request.maxTokens.getD 0)
      truncatePromptTokens := request.truncatePromptTokens
      addSpecialTokens := request.addSpecialTokens
      cacheSalt := request.cacheSalt
      needsDetokenization := request.echo.getD false && !request.returnTokenIds.getD false }

/-- The engine prompts that `create_completion` makes of a request; an exception becomes an error
response. `loptTokenizer` is what `maybe_get_lopt_tokenizer` returned. -/
def preprocess (enableLopt : Bool)
    (loptTokenizer : Option (PyVal α → Except PyErr (List (String × PyVal α))))
    (request : CompletionRequest α B) : Except PyErr (List (EnginePrompt α R)) :=
  if enableLopt then
    match loptTokenizer with
    | none => .error (.typeError "'NoneType' object is not callable")
    | some call => do
      let tokenizedPrompt ← call request.prompt.toPy
      let inputIds ← getKey tokenizedPrompt "input_ids"
      let config ← srv.buildRenderConfig request
      srv.renderPromptAndEmbeds inputIds request.promptEmbeds config
  else do
    let config ← srv.buildRenderConfig request
    srv.renderPromptAndEmbeds request.prompt.toPy request.promptEmbeds config

/-! ### The parallel tokenizer in place of the serial one -/

/-- The normalized `truncate_prompt_tokens`. -/
def truncation : Option ℤ :=
  request.truncatePromptTokens.map fun k => if k < 0 then srv.maxModelLen else k

/-- The requests whose prompt the parallel tokenizer leaves alone: everything is truncated away
without an error, or the prompt is a string for which the plain tokenization, truncated from the
left, has the ids that the renderer asks the tokenizer for. -/
def LoptSafe (cfg : ChunkConfig) (request : CompletionRequest α B) : Prop :=
  match request.prompt with
  | .str s => request.truncatePromptTokens = some 0 ∨
    (s ≠ [] ∧ maybeApplyTruncation (ids (srv.tokenizer.encode s)) (srv.truncation request) =
      srv.textIds s (srv.truncation request) request.addSpecialTokens)
  | .strs xs => request.truncatePromptTokens = some 0 ∧ cfg.chunkSize * 2 ≤ xs.length ∧
    srv.tokenizer.BatchEncodes cfg xs
  | _ => False

variable {srv} {cfg : ChunkConfig} {config : RenderConfig} {request : CompletionRequest α B}
  {t : Option ℤ} {embeds : Option (B ⊕ List B)}

theorem maybeApplyTruncation_map {β γ : Type} (f : β → γ) (l : List β) (t : Option ℤ) :
    maybeApplyTruncation (l.map f) t = (maybeApplyTruncation l t).map f := by
  cases t with
  | none => rfl
  | some k =>
    simp only [maybeApplyTruncation, lastRows, length_map]
    split_ifs
    · rfl
    · rw [map_drop]

theorem buildRenderConfig_eq (h : srv.buildRenderConfig request = .ok config) :
    config.truncatePromptTokens = request.truncatePromptTokens ∧
      config.addSpecialTokens = request.addSpecialTokens := by
  simp only [buildRenderConfig] at h
  split_ifs at h
  obtain rfl := ok.inj h
  exact ⟨rfl, rfl⟩

variable {m : Option ℤ}

theorem checkMaxLength_eq {k : ℤ} (h : checkMaxLength k m = .ok t) : t = some k := by
  cases m with
  | none => exact (ok.inj h).symm
  | some m =>
    simp only [checkMaxLength] at h
    split_ifs at h
    exact (ok.inj h).symm

/-- What the check of `truncate_prompt_tokens` lets through. -/
theorem verify_eq (hb : srv.buildRenderConfig request = .ok config)
    (h : srv.verifyTruncatePromptTokens config = .ok t) :
    t = srv.truncation request ∧ (t = some 0 ↔ request.truncatePromptTokens = some 0) := by
  have hpos := srv.maxModelLen_pos
  simp only [truncation, ← (buildRenderConfig_eq hb).1]
  unfold verifyTruncatePromptTokens at h
  cases ht : config.truncatePromptTokens with
  | none =>
    rw [ht] at h
    obtain rfl := ok.inj h
    simp
  | some k =>
    rw [ht] at h
    simp only at h
    by_cases hk : k = 0
    · rw [if_pos hk] at h
      obtain rfl := ok.inj h
      simp [hk]
    · rw [if_neg hk] at h
      obtain rfl := checkMaxLength_eq h
      simp only [map_some, Option.some.injEq, true_and]
      split_ifs <;> omega

theorem renderPromptAndEmbeds_zero (v : PyVal α)
    (h : srv.verifyTruncatePromptTokens config = .ok (some 0)) :
    srv.renderPromptAndEmbeds v embeds config = .ok [] := by
  simp only [renderPromptAndEmbeds, h, bind]
  rfl

variable {rendered : List (EnginePrompt α R)} {v : PyVal α}

/-- Otherwise the embeddings come first, and the prompts follow. -/
theorem renderPromptAndEmbeds_eq (h : srv.verifyTruncatePromptTokens config = .ok t)
    (ht : t ≠ some 0) (he : srv.renderEmbeds embeds t config.cacheSalt = .ok rendered)
    (hv : v ≠ .none) (hv' : v ≠ .str []) : srv.renderPromptAndEmbeds v embeds config =
      (parseRawPrompts v >>= fun raws => raws.mapM (srv.createPrompt config t)).map
        (rendered ++ ·) := by
  have hrender : srv.renderPrompt v config =
      parseRawPrompts v >>= fun raws => raws.mapM (srv.createPrompt config t) := by
    simp [renderPrompt, h, bind, Except.bind, if_neg ht]
  have hmatch : srv.renderPromptAndEmbeds v embeds config =
      (srv.renderPrompt v config).map (rendered ++ ·) := by
    simp only [renderPromptAndEmbeds, h, bind, Except.bind, if_neg ht, he]
    rcases v with _ | b | i | (_ | ⟨a, s⟩) | xs | a
    · exact absurd rfl hv
    all_goals cases srv.renderPrompt _ config <;> rfl
  rw [hmatch, hrender]

variable {p : EnginePrompt α R}

theorem createPromptFromText_eq_ok {s : List α} (h : srv.createPromptFromText s config t = .ok p) :
    srv.skipTokenizerInit = false ∧
      createTokensPrompt ((srv.textIds s t config.addSpecialTokens).map .int) config.maxLength
        config.cacheSalt (some (if srv.doLowerCase then srv.lower s else s)) = .ok p := by
  obtain ⟨tok, htok, h⟩ := bind_ok.1 h
  refine ⟨?_, h⟩
  simp only [getAsyncTokenizer] at htok
  cases hskip : srv.skipTokenizerInit with
  | false => rfl
  | true =>
    rw [hskip] at htok
    cases htok

variable {is : List (PyVal α)} {prompt : Option (List α)} {salt : Option String}

theorem createTokensPrompt_content (h : createTokensPrompt is m salt prompt = .ok p) :
    p.content = .inl is := by
  cases m with
  | none =>
    obtain rfl := ok.inj h
    rfl
  | some m =>
    simp only [createTokensPrompt] at h
    split_ifs at h
    obtain rfl := ok.inj h
    rfl

/-- The length check only looks at the ids. -/
theorem createTokensPrompt_of_ok (h : createTokensPrompt is m salt prompt = .ok p) (salt' : Option String)
    (prompt' : Option (List α)) :
    ∃ p' : EnginePrompt α R, createTokensPrompt is m salt' prompt' = .ok p' := by
  cases m with
  | none => exact ⟨_, rfl⟩
  | some m =>
    simp only [createTokensPrompt] at h ⊢
    split_ifs at h ⊢
    exact ⟨_, rfl⟩

theorem createPromptFromTokenIds_content (h : srv.createPromptFromTokenIds is config t = .ok p) :
    p.content = .inl (maybeApplyTruncation is t) := by
  simp only [createPromptFromTokenIds] at h
  split_ifs at h
  all_goals
    obtain ⟨prompt, -, h⟩ := bind_ok.1 h
    exact createTokensPrompt_content h

/-- Token ids that are not too long are rendered, when there is a tokenizer for the echo. -/
theorem createPromptFromTokenIds_of_ok (hskip : srv.skipTokenizerInit = false)
    (h : createTokensPrompt (maybeApplyTruncation is t) config.maxLength config.cacheSalt prompt =
      .ok p) : ∃ p', srv.createPromptFromTokenIds is config t = .ok p' := by
  obtain ⟨p', hp'⟩ := createTokensPrompt_of_ok h config.cacheSalt
    (if config.needsDetokenization then some (srv.decode (maybeApplyTruncation is t)) else none)
  refine ⟨p', ?_⟩
  simp only [createPromptFromTokenIds, getAsyncTokenizer, hskip, Bool.false_eq_true, if_false]
  split_ifs at hp' ⊢
  · exact hp'
  · exact hp'

/-! ### The whole request -/

variable {prompts : List (EnginePrompt α R)}

theorem preprocess_serial_eq_ok {lopt : Option (PyVal α → Except PyErr (List (String × PyVal α)))}
    (h : srv.preprocess false lopt request = .ok prompts) :
    ∃ config t, srv.buildRenderConfig request = .ok config ∧
      srv.verifyTruncatePromptTokens config = .ok t ∧
      srv.renderPromptAndEmbeds request.prompt.toPy request.promptEmbeds config = .ok prompts := by
  obtain ⟨config, hconfig, h⟩ := bind_ok.1 h
  have hrender := h
  obtain ⟨t, ht, -⟩ := bind_ok.1 h
  exact ⟨config, t, hconfig, ht, hrender⟩

theorem preprocess_lopt_eq_ok {call : PyVal α → Except PyErr (List (String × PyVal α))}
    (hconfig : srv.buildRenderConfig request = .ok config) :
    srv.preprocess true (some call) request = .ok prompts ↔
      ∃ enc v, call request.prompt.toPy = .ok enc ∧ getKey enc "input_ids" = .ok v ∧
        srv.renderPromptAndEmbeds v request.promptEmbeds config = .ok prompts := by
  simp only [preprocess, if_true]
  rw [bind_ok]
  constructor
  · rintro ⟨enc, henc, h⟩
    obtain ⟨v, hv, h⟩ := bind_ok.1 h
    rw [hconfig] at h
    exact ⟨enc, v, henc, hv, h⟩
  · rintro ⟨enc, v, henc, hv, h⟩
    refine ⟨enc, henc, bind_ok.2 ⟨v, hv, ?_⟩⟩
    rw [hconfig]
    exact h

theorem parallelCall_ne_ok {p : Prompt α} (hs : ∀ s, p ≠ .str s) (hxs : ∀ xs, p ≠ .strs xs)
    (tok : HfTokenizer α) (enc : List (String × PyVal α)) :
    tok.parallelCall cfg p.toPy false ≠ .ok enc := by
  cases p with
  | absent => exact fun h => by cases h
  | str s => exact absurd rfl (hs s)
  | strs xs => exact absurd rfl (hxs xs)
  | ids is =>
    refine parallelCall_list_ne_ok ?_ false enc
    cases is with
    | nil => exact .inr rfl
    | cons i is => exact .inl rfl
  | idLists iss =>
    refine parallelCall_list_ne_ok ?_ false enc
    cases iss with
    | nil => exact .inr rfl
    | cons is iss => exact .inl rfl

theorem parseRawPrompts_strs {xs : List (List α)} {raws : List (RawPrompt α)}
    (h : parseRawPrompts (strsVal xs) = .ok raws) : raws.length = xs.length := by
  cases xs with
  | nil => cases h
  | cons x xs =>
    obtain rfl := ok.inj h
    simp

theorem encode_eq_nil_iff (tok : HfTokenizer α) (s : List α) : ids (tok.encode s) = [] ↔ s = [] := by
  have ht := tok.tiles s
  constructor
  · intro h
    rw [map_eq_nil_iff.1 h] at ht
    have hzero : 0 = s.length := ht
    exact length_eq_zero_iff.1 hzero.symm
  · rintro rfl
    cases h : tok.encode [] with
    | nil => rfl
    | cons t ts =>
      rw [h] at ht
      have hle := ht.2.2.le
      have hlt := ht.2.1
      simp only [length_nil] at hle
      omega

section

variable (hv : srv.verifyTruncatePromptTokens config = .ok t) (ht : t ≠ some 0)

include hv ht

section

variable (he : srv.renderEmbeds embeds t config.cacheSalt = .ok rendered)
include he

/-- A string that is not truncated away: the prompt is the same exactly when the ids are. -/
theorem preprocess_str_iff {s : List α} (hs : s ≠ [])
    (hserial : srv.renderPromptAndEmbeds (.str s) embeds config = .ok prompts) :
    (∃ prompts', srv.renderPromptAndEmbeds (.list [.ints (ids (srv.tokenizer.encode s))]) embeds
        config = .ok prompts' ∧
      prompts'.map EnginePrompt.content = prompts.map EnginePrompt.content) ↔
    maybeApplyTruncation (ids (srv.tokenizer.encode s)) t =
      srv.textIds s t config.addSpecialTokens := by
  rw [renderPromptAndEmbeds_eq hv ht he (by simp) (by simpa using hs)] at hserial
  rw [renderPromptAndEmbeds_eq hv ht he (by simp) (by simp),
    parseRawPrompts_one_row ((encode_eq_nil_iff _ _).not.2 hs)]
  obtain ⟨ps, hps, rfl⟩ := map_eq_ok.1 hserial
  obtain ⟨raws, hraws, hps⟩ := bind_ok.1 hps
  obtain rfl := ok.inj hraws
  have hone := mapM_eq_ok.1 hps
  obtain ⟨p, ps', hp, hnil, rfl⟩ := forall₂_cons_left_iff.1 hone
  obtain rfl := forall₂_nil_left_iff.1 hnil
  obtain ⟨hskip, hp⟩ := createPromptFromText_eq_ok hp
  have hcontent := createTokensPrompt_content hp
  constructor
  · rintro ⟨prompts', hok, heq⟩
    obtain ⟨ps', hps', rfl⟩ := map_eq_ok.1 hok
    obtain ⟨p', ps'', hp', hnil', rfl⟩ := forall₂_cons_left_iff.1 (mapM_eq_ok.1 hps')
    obtain rfl := forall₂_nil_left_iff.1 hnil'
    have hcontent' := createPromptFromTokenIds_content hp'
    simp only [map_append, map_cons, append_cancel_left_eq,
      List.cons.injEq, and_true, hcontent, hcontent', Sum.inl.injEq, maybeApplyTruncation_map] at heq
    exact map_injective_iff.2 (fun _ _ => PyVal.int.inj) heq
  · intro heq
    have hids : maybeApplyTruncation ((ids (srv.tokenizer.encode s)).map PyVal.int) t =
        (srv.textIds s t config.addSpecialTokens).map (PyVal.int : ℤ → PyVal α) := by
      rw [maybeApplyTruncation_map, heq]
    rw [← hids] at hp hcontent
    obtain ⟨p', hp'⟩ := createPromptFromTokenIds_of_ok hskip hp
    refine ⟨rendered ++ [p'], map_eq_ok.2 ⟨[p'], ?_, rfl⟩, ?_⟩
    · exact mapM_eq_ok.2 (.cons hp' .nil)
    · simp [hcontent, createPromptFromTokenIds_content hp']

/-- A list of strings becomes one prompt instead of one a string. -/
theorem preprocess_strs_ne {xs : List (List α)} (hxs : 2 ≤ xs.length)
    (hrow : OneRow v) {prompts' : List (EnginePrompt α R)}
    (hserial : srv.renderPromptAndEmbeds (strsVal xs) embeds config = .ok prompts)
    (hlopt : srv.renderPromptAndEmbeds v embeds config = .ok prompts') :
    prompts'.map EnginePrompt.content ≠ prompts.map EnginePrompt.content := by
  have hne : v ≠ .none ∧ v ≠ .str [] := by
    rcases hrow with ⟨a, rfl⟩ | ⟨is, rfl⟩ <;> exact ⟨nofun, nofun⟩
  rw [renderPromptAndEmbeds_eq hv ht he (by simp [strsVal]) (by simp [strsVal])] at hserial
  rw [renderPromptAndEmbeds_eq hv ht he hne.1 hne.2] at hlopt
  obtain ⟨ps, hps, rfl⟩ := map_eq_ok.1 hserial
  obtain ⟨raws, hraws, hps⟩ := bind_ok.1 hps
  obtain ⟨ps', hps', rfl⟩ := map_eq_ok.1 hlopt
  obtain ⟨raws', hraws', hps'⟩ := bind_ok.1 hps'
  have h := (mapM_eq_ok.1 hps).length_eq
  have h' := (mapM_eq_ok.1 hps').length_eq
  rw [parseRawPrompts_strs hraws] at h
  rw [parseRawPrompts_oneRow hrow hraws'] at h'
  intro heq
  have hlen := congrArg List.length heq
  simp only [length_map, length_append] at hlen
  omega

end

/-- The embeddings are loaded before anything else. -/
theorem renderEmbeds_of_ok (h : srv.renderPromptAndEmbeds v embeds config = .ok prompts) :
    ∃ rendered, srv.renderEmbeds embeds t config.cacheSalt = .ok rendered := by
  simp only [renderPromptAndEmbeds, hv, bind, Except.bind, if_neg ht] at h
  cases he : srv.renderEmbeds embeds t config.cacheSalt with
  | ok rendered => exact ⟨rendered, rfl⟩
  | error e =>
    rw [he] at h
    cases h

end

/-- **When `enable_lopt` leaves the engine prompts alone.**  For a request that is rendered
without it, the prompts with it are the same ones exactly when the parallel tokenizer was
constructed and the request is `LoptSafe`. -/
theorem preprocess_lopt_iff (srv : CompletionServer α B R) (cfg : ChunkConfig)
    (lopt : Option (LosslessTokenizer srv.tokenizer cfg)) (request : CompletionRequest α B)
    (prompts : List (EnginePrompt α R)) (h : srv.preprocess false none request = .ok prompts) :
    (∃ prompts', srv.preprocess true (lopt.map LosslessTokenizer.call) request = .ok prompts' ∧
      prompts'.map EnginePrompt.content = prompts.map EnginePrompt.content) ↔
    lopt.isSome ∧ srv.LoptSafe cfg request := by
  obtain ⟨config, t, hconfig, hv, hserial⟩ := preprocess_serial_eq_ok h
  obtain ⟨htrunc, hzero⟩ := verify_eq hconfig hv
  cases lopt with
  | none =>
    -- every request fails
    refine iff_of_false ?_ (fun h => by cases h.1)
    rintro ⟨prompts', hlopt, -⟩
    cases hlopt
  | some lopt =>
    simp only [map_some, isSome_some, true_and, preprocess_lopt_eq_ok hconfig]
    have hspecial := (buildRenderConfig_eq hconfig).2
    cases hp : request.prompt with
    | str s =>
      rw [hp] at hserial
      obtain ⟨enc, henc, hkey⟩ := lopt.call_str s
      simp only [LoptSafe, hp]
      have hcall : ∀ prompts', (∃ enc v, lopt.call (.str s) = .ok enc ∧
          getKey enc "input_ids" = .ok v ∧
          srv.renderPromptAndEmbeds v request.promptEmbeds config = .ok prompts') ↔
          srv.renderPromptAndEmbeds (.list [.ints (ids (srv.tokenizer.encode s))])
            request.promptEmbeds config = .ok prompts' := by
        intro prompts'
        constructor
        · rintro ⟨enc', v, henc', hv', h⟩
          obtain rfl := ok.inj (henc.symm.trans henc')
          obtain rfl := ok.inj (hkey.symm.trans hv')
          exact h
        · exact fun h => ⟨enc, _, henc, hkey, h⟩
      simp only [Prompt.toPy, hcall]
      by_cases ht : t = some 0
      · rw [ht] at hv
        refine iff_of_true ?_ (.inl (hzero.1 ht))
        rw [renderPromptAndEmbeds_zero _ hv] at hserial
        exact ⟨[], renderPromptAndEmbeds_zero _ hv, by rw [← ok.inj hserial]⟩
      have hne : request.truncatePromptTokens ≠ some 0 := fun h => ht (hzero.2 h)
      obtain ⟨rendered, he⟩ := renderEmbeds_of_ok hv ht hserial
      by_cases hs : s = []
      · -- the serial renderer skips the empty string, the parallel one rejects its ids
        refine iff_of_false ?_ (fun h => h.elim hne fun h => h.1 hs)
        rintro ⟨prompts', hok, -⟩
        rw [renderPromptAndEmbeds_eq hv ht he (by simp) (by simp), (encode_eq_nil_iff _ _).2 hs] at hok
        cases hok
      · rw [preprocess_str_iff hv ht he hs hserial, htrunc, hspecial]
        exact ⟨fun h => .inr ⟨hs, h⟩, fun h => h.elim (fun h => absurd h hne) And.right⟩
    | strs xs =>
      rw [hp] at hserial
      simp only [LoptSafe, hp]
      have hcall : lopt.call (Prompt.strs xs).toPy =
          srv.tokenizer.parallelCall cfg (strsVal xs) false := lopt.call_other _ rfl
      rw [hcall]
      have hpos := cfg.chunkSize_pos
      rcases parallelCall_strs srv.tokenizer cfg xs false with
        ⟨hb, enc, v, henc, hkey, hrow⟩ | ⟨hb, herr⟩
      · by_cases ht : t = some 0
        · rw [ht] at hv
          refine iff_of_true ?_ ⟨hzero.1 ht, hb⟩
          rw [renderPromptAndEmbeds_zero _ hv] at hserial
          exact ⟨[], ⟨enc, v, henc, hkey, renderPromptAndEmbeds_zero _ hv⟩,
            by rw [← ok.inj hserial]⟩
        · refine iff_of_false ?_ (fun h => ht (hzero.2 h.1))
          rintro ⟨prompts', ⟨enc', v', henc', hkey', hok⟩, heq⟩
          obtain rfl := ok.inj (henc.symm.trans henc')
          obtain rfl := ok.inj (hkey.symm.trans hkey')
          obtain ⟨rendered, he⟩ := renderEmbeds_of_ok hv ht hserial
          exact preprocess_strs_ne hv ht he (by omega) hrow hserial hok heq
      · refine iff_of_false ?_ (fun h => hb h.2)
        rintro ⟨prompts', ⟨enc, v, henc, -⟩, -⟩
        exact herr enc henc
    | absent | ids is | idLists iss =>
      simp only [LoptSafe, hp, iff_false]
      rintro ⟨prompts', ⟨enc, v, henc, -⟩, -⟩
      rw [lopt.call_other _ rfl] at henc
      exact parallelCall_ne_ok (by simp) (by simp) _ _ henc

/-- A server whose tokenizer makes every character a token. -/
def ofChars : CompletionServer Char Unit Unit where
  tokenizer := .ofChars fun c => (c.toNat : ℤ)
  skipTokenizerInit := false
  maxModelLen := 100
  maxModelLen_pos := by decide
  doLowerCase := false
  enablePromptEmbeds := false
  lower s := s
  decode _ := []
  loadEmbed _ := .ok []

/-- A request with the given prompt. -/
def plainRequest (prompt : Prompt Char) : CompletionRequest Char Unit where
  prompt := prompt
  promptEmbeds := none
  addSpecialTokens := false
  truncatePromptTokens := none
  maxTokens := some 16
  echo := some false
  returnTokenIds := none
  cacheSalt := none

/-- The prompt "hi". -/
theorem preprocess_lopt_iff_str :
    let cfg : ChunkConfig := ⟨2048, 256, by decide, by decide⟩
    let lopt := LosslessTokenizer.ofSerial ofChars.tokenizer cfg
    let request := plainRequest (.str ['h', 'i'])
    let prompts : List (EnginePrompt Char Unit) :=
      [.tokens [.int 104, .int 105] none (some ['h', 'i'])]
    ofChars.preprocess false none request = .ok prompts ∧
    ((∃ prompts', ofChars.preprocess true (some lopt.call) request = .ok prompts' ∧
      prompts'.map EnginePrompt.content = prompts.map EnginePrompt.content) ↔
    (some lopt).isSome ∧ ofChars.LoptSafe cfg request) := by
  intro cfg lopt request prompts
  have h : ofChars.preprocess false none request = .ok prompts := rfl
  exact ⟨h, preprocess_lopt_iff ofChars cfg (some lopt) request prompts h⟩

/-- A prompt of token ids is rendered without the parallel tokenizer, and an error with it. -/
theorem lopt_rejects_token_ids :
    let cfg : ChunkConfig := ⟨2048, 256, by decide, by decide⟩
    let lopt := LosslessTokenizer.ofSerial ofChars.tokenizer cfg
    let request := plainRequest (.ids [1, 2, 3])
    ofChars.preprocess false none request = .ok [.tokens [.int 1, .int 2, .int 3] none none] ∧
    ofChars.preprocess true (some lopt.call) request =
      .error (.valueError "text input must be of type `str` ...") := ⟨rfl, rfl⟩

end CompletionServer

end LoptVllm.Lopt
