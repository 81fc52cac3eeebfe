import AgentSaas.Proofs.CacheTrees
import AgentSaas.Proofs.RelationWalk

/-! The pages of a walk are its candidates in their order. A cursor is read back as what it was
written for. -/

namespace AgentSaas.Proofs.WalkPages
open AgentSaas.BoundedWalk RelationWalk JsonValues JsonStrings JsonReader JsonNumbers CodePoints CacheSchema Utf8
open ToolCallRepair (Text unit units)

variable {N Details : Type} [DecidableEq N] {service : BoundedRelationWalkService N Details}

/-- A unit that stands for itself in a string, and is none of a cursor's own. -/
structure Plain (char : Nat) : Prop where
  ascii : char < 0x80
  visible : 0x20 ≤ char
  quote : char ≠ unit '"'
  escape : char ≠ unit '\\'

omit [DecidableEq N] in
theorem quote_plain {text : Text} (plain : ∀ char ∈ text, Plain char) : quote text = unit '"' :: (text ++ [unit '"']) := by
  rw [quote, codePoints_ascii fun char member => (plain char member).ascii, List.flatMap_map]
  have same : text.flatMap (fun char => quotePoint [char]) = text := by
    refine (List.flatMap_congr fun char member => ?_).trans (List.flatMap_singleton' text)
    obtain ⟨ascii, visible, quote, escape⟩ := plain char member
    have coded : ¬ (decide (char < 0x20) || isHigh char || isLow char) = true := by
      simp only [isHigh, isLow, Bool.or_eq_true, Bool.and_eq_true, decide_eq_true_eq]
      omega
    rw [quotePoint, quoteUnit, if_neg (by omega), if_neg (by omega), if_neg (by omega), if_neg (by omega), if_neg (by omega), if_neg quote,
      if_neg escape, if_neg coded]
  rw [same]

theorem digit_of_digest {key message : List Nat} {char : Nat} (member : char ∈ digestText key message) :
    ∃ bits < 64, char = Base64Url.digit bits := Base64Url.mem_encode (Hmac.sha256_octets _) char member

theorem digest_length (key message : List Nat) : (digestText key message).length = 43 := by
  have size : (Hmac.hmacSha256 key message).length = 32 := Hmac.sha256_length _
  rw [digestText, Base64Url.length_encode, size]

theorem plain_of_digest {key message : List Nat} : ∀ char ∈ digestText key message, Plain char := by
  intro char member
  obtain ⟨bits, small, rfl⟩ := digit_of_digest member
  obtain ⟨ascii, _, visible, quote, escape⟩ := Base64Url.digit_plain bits small
  exact ⟨ascii, visible, quote, escape⟩

/-- A number that is a small integer has its digits as its text. -/
def Spelled (numbers : Numbers N) : Prop := ∀ value : Nat, isSafe value → numbers.toText (numbers.ofNat value) = decimal value

omit [DecidableEq N] in
theorem payload_text (spelled : Spelled service.numbers) {fingerprint : Text} (plain : ∀ char ∈ fingerprint, Plain char) {offset : Nat}
    (safe : isSafe offset) : text service.numbers.toText (payloadValue service ⟨fingerprint, offset⟩) =
      units "\x7b\"v\":1,\"fingerprint\":\"" ++ (fingerprint ++ (units "\",\"offset\":" ++ (decimal offset ++ units "\x7d"))) := by
  have version : quote (units "v") = units "\"v\"" := rfl
  have name : quote (units "fingerprint") = units "\"fingerprint\"" := rfl
  have place : quote (units "offset") = units "\"offset\"" := rfl
  have one : service.numbers.toText (service.numbers.ofNat 1) = units "1" := spelled 1 (by decide)
  have known : text service.numbers.toText (.string fingerprint) = unit '"' :: (fingerprint ++ [unit '"']) := quote_plain plain
  have first : text service.numbers.toText (.number (service.numbers.ofNat 1)) = units "1" := one
  have last : text service.numbers.toText (.number (service.numbers.ofNat offset)) = decimal offset := spelled offset safe
  rw [payloadValue, text_object, objectText]
  simp only [List.map_cons, List.map_nil, Prod.map, id, known, first, last, memberText, version, name, place, Splitting.join]
  rw [List.intercalate_cons_cons, List.intercalate_cons_cons, List.intercalate_singleton]
  simp only [List.append_assoc, List.cons_append, List.nil_append]
  rfl

theorem decimal_short {value : Nat} (small : value ≤ MAX_CANDIDATES) : (decimal value).length ≤ 3 := by
  rw [decimal_eq, List.length_map]
  rw [MAX_CANDIDATES] at small
  exact (Nat.length_toDigits_le_iff (by decide) (by decide)).mpr (by omega)

section Cursors

variable {fingerprint : Text} {offset : Nat}

omit [DecidableEq N] in
theorem payload_plain (spelled : Spelled service.numbers) (plain : ∀ char ∈ fingerprint, Plain char) (short : fingerprint.length = 43)
    (small : offset ≤ MAX_CANDIDATES) (safe : isSafe offset) :
    (∀ char ∈ text service.numbers.toText (payloadValue service ⟨fingerprint, offset⟩), char < 0x80) ∧
      0 < (text service.numbers.toText (payloadValue service ⟨fingerprint, offset⟩)).length ∧
      (text service.numbers.toText (payloadValue service ⟨fingerprint, offset⟩)).length ≤ 100 := by
  have digits := decimal_short small
  have front : (units "\x7b\"v\":1,\"fingerprint\":\"").length = 22 := rfl
  have middle : (units "\",\"offset\":").length = 11 := rfl
  have back : (units "\x7d").length = 1 := rfl
  rw [payload_text spelled plain safe]
  refine ⟨?_, ?_, ?_⟩
  · intro char member
    simp only [List.mem_append] at member
    rcases member with member | member | member | member | member
    · revert char
      decide
    · exact (plain char member).ascii
    · revert char
      decide
    · have digit := isDigit_decimal member
      simp only [isDigit, Bool.and_eq_true, decide_eq_true_eq] at digit
      have nine : unit '9' < 0x80 := by decide
      omega
    · revert char
      decide
  · rw [List.length_append, front]
    omega
  · simp only [List.length_append, front, middle, back, short]
    omega

theorem readPayload_written (safe : isSafe offset) :
    readPayload service (arranged service.numbers.plain id (payloadValue service ⟨fingerprint, offset⟩)) fingerprint = some ⟨fingerprint, offset⟩ := by
  have one : service.numbers.toInt (service.numbers.plain (service.numbers.ofNat 1)) = some 1 := by
    rw [Numbers.toInt_plain]
    exact service.numbers.toInt_ofNat 1 (by decide)
  have place : service.numbers.toInt (service.numbers.plain (service.numbers.ofNat offset)) = some (offset : Int) := by
    rw [Numbers.toInt_plain]
    exact service.numbers.toInt_ofNat offset safe
  have version : integerOf service (memberOf (arranged service.numbers.plain id (payloadValue service ⟨fingerprint, offset⟩)) (units "v")) =
      some 1 := by
    rw [payloadValue, arranged_object]
    exact one
  have name : memberOf (arranged service.numbers.plain id (payloadValue service ⟨fingerprint, offset⟩)) (units "fingerprint") =
      some (.string fingerprint) := by
    rw [payloadValue, arranged_object]
    rfl
  have number : integerOf service (memberOf (arranged service.numbers.plain id (payloadValue service ⟨fingerprint, offset⟩)) (units "offset")) =
      some (offset : Int) := by
    rw [payloadValue, arranged_object]
    exact place
  rw [readPayload, version, name, number, if_neg (fun other => other rfl)]
  dsimp only
  rw [if_pos ⟨rfl, Int.natCast_nonneg offset⟩, Int.toNat_natCast]

theorem decodeCursor_encodeCursor (spelled : Spelled service.numbers) (plain : ∀ char ∈ fingerprint, Plain char) (short : fingerprint.length = 43)
    (small : offset ≤ MAX_CANDIDATES) :
    encodeCursor service ⟨fingerprint, offset⟩ ≠ [] ∧
      decodeCursor service (encodeCursor service ⟨fingerprint, offset⟩) fingerprint = .ok ⟨fingerprint, offset⟩ := by
  have safe : isSafe offset = true := by
    rw [MAX_CANDIDATES] at small
    rw [isSafe, MAX_SAFE_INTEGER, Bool.and_eq_true]
    exact ⟨decide_eq_true (by omega), decide_eq_true (by omega)⟩
  obtain ⟨ascii, filled, bounded⟩ := payload_plain spelled plain short small safe
  have legal : parse (standard service.numbers) (text service.numbers.toText (payloadValue service ⟨fingerprint, offset⟩)) =
      .ok (arranged service.numbers.plain id (payloadValue service ⟨fingerprint, offset⟩)) := by
    apply JsonRoundTrip.parse_text
    apply CacheTrees.legible
    have keys : [units "v", units "fingerprint", units "offset"].Nodup := by decide
    refine .object keys (fun _ _ => trivial) ?_
    simp only [List.forall_mem_cons]
    exact ⟨.number (service.numbers.finite_ofNat 1 (by decide)), .string trivial, .number (service.numbers.finite_ofNat offset safe),
      fun _ member => absurd member List.not_mem_nil⟩
  generalize written : text service.numbers.toText (payloadValue service ⟨fingerprint, offset⟩) = payload at *
  have bytes : CacheSchema.encode payload = payload := encode_ascii ascii
  have octets : ∀ byte ∈ payload, byte < 256 := fun byte member => Nat.lt_trans (ascii byte member) (by decide)
  have back : Utf8.decode (Base64Url.decode (Base64Url.encode payload)) = payload := by
    rw [Base64Url.decode_encode octets]
    exact (congrArg Utf8.decode bytes.symm).trans (decode_encode (wellFormed_ascii ascii))
  have size := Base64Url.length_encode payload
  have point : ∀ part ∈ [Base64Url.encode payload, sign service (Base64Url.encode payload)], unit '.' ∉ part := by
    simp only [List.forall_mem_cons]
    refine ⟨fun inside => ?_, fun inside => ?_, fun _ member => absurd member List.not_mem_nil⟩
    · obtain ⟨bits, few, same⟩ := Base64Url.mem_encode octets _ inside
      exact (Base64Url.digit_plain bits few).2.1 same.symm
    · obtain ⟨bits, few, same⟩ := digit_of_digest inside
      exact (Base64Url.digit_plain bits few).2.1 same.symm
  have parts : Splitting.split (units ".") (encodeCursor service ⟨fingerprint, offset⟩) =
      [Base64Url.encode payload, sign service (Base64Url.encode payload)] := by
    have joined := Splitting.split_join (List.cons_ne_nil _ _) point
    rw [Splitting.join, List.intercalate_cons_cons, List.intercalate_singleton] at joined
    rw [encodeCursor, written, bytes]
    exact joined
  have signature : (sign service (Base64Url.encode payload)).length = 43 := digest_length _ _
  have long : (encodeCursor service ⟨fingerprint, offset⟩).length = (Base64Url.encode payload).length + 1 + 43 := by
    rw [encodeCursor, written, bytes, List.length_append, List.length_append, signature]
    rfl
  constructor
  · intro empty
    rw [empty] at long
    simp only [List.length_nil] at long
    omega
  · have some_encoded : Base64Url.encode payload ≠ [] := by
      intro empty
      rw [empty, List.length_nil] at size
      omega
    have some_signature : sign service (Base64Url.encode payload) ≠ [] := by
      intro empty
      rw [empty] at signature
      cases signature
    unfold decodeCursor
    rw [if_neg (by omega), parts]
    simp only [List.getD_cons_zero, List.getD_cons_succ, List.getD_nil, some_encoded, some_signature, safeEqual, BEq.rfl, back, legal,
      readPayload_written safe, ne_eq, not_true_eq_false, Bool.not_true, Bool.false_eq_true, or_self, if_false]

end Cursors

/-- The pages of one request, each but the first asked for by the cursor of the one before. -/
inductive Pages (service : BoundedRelationWalkService N Details) (input : RelationWalkInput) : Option Text → List (RelationWalkPage Details) → Prop
  | last {cursor page} (walked : walk service { input with cursor := cursor } = .ok page) (ends : page.nextCursor = none) :
    Pages service input cursor [page]
  | next {cursor page following rest} (walked : walk service { input with cursor := cursor } = .ok page)
    (more : page.nextCursor = some following) (later : Pages service input (some following) rest) : Pages service input cursor (page :: rest)

omit [DecidableEq N] in
theorem Pages.unique {input : RelationWalkInput} {cursor : Option Text} {pages others : List (RelationWalkPage Details)}
    (first : Pages service input cursor pages) (second : Pages service input cursor others) : others = pages := by
  induction first generalizing others with
  | last walked ends =>
    cases second with
    | last again =>
      rw [walked] at again
      rw [Except.ok.inj again]
    | next again more =>
      rw [walked] at again
      rw [← Except.ok.inj again, ends] at more
      cases more
  | next walked more _ ih =>
    cases second with
    | last again ends =>
      rw [walked] at again
      rw [← Except.ok.inj again, more] at ends
      cases ends
    | next again another later =>
      rw [walked] at again
      obtain rfl := Except.ok.inj again
      rw [more] at another
      obtain rfl := Option.some.inj another
      rw [ih later]

section Walks

variable {input : RelationWalkInput} {pageSize candidateLimit : Nat}

/-- What a request must be. -/
structure Valid (input : RelationWalkInput) (pageSize candidateLimit : Nat) : Prop where
  size : pageSize = input.pageSize.getD 25
  limit : candidateLimit = input.candidateLimit.getD 100
  checked : validateWalk input pageSize candidateLimit = .ok ()

theorem Valid.bounds (valid : Valid input pageSize candidateLimit) : 1 ≤ pageSize ∧ candidateLimit ≤ MAX_CANDIDATES := by
  have checked := valid.checked
  unfold validateWalk at checked
  split at checked
  · cases checked
  next passes =>
    simp only [Bool.or_eq_true, decide_eq_true_eq, not_or, Nat.not_lt] at passes
    exact ⟨passes.1.1.1.2, passes.2⟩

omit [DecidableEq N] in
/-- A page is the candidates from its place on, and the next one begins where it ends. -/
theorem walk_at (valid : Valid input pageSize candidateLimit) {cursor : Option Text} {offset : Nat}
    (found : offsetOf service { input with cursor := cursor } (requestFingerprint service input pageSize candidateLimit) = .ok offset)
    (within : offset ≤ (collect service input candidateLimit).candidates.length) :
    walk service { input with cursor := cursor } = .ok {
      candidates := ((collect service input candidateLimit).candidates.drop offset).take pageSize
      nextCursor :=
        if offset + (((collect service input candidateLimit).candidates.drop offset).take pageSize).length <
            (collect service input candidateLimit).candidates.length then
          some (encodeCursor service ⟨requestFingerprint service input pageSize candidateLimit,
            offset + (((collect service input candidateLimit).candidates.drop offset).take pageSize).length⟩)
        else none
      truncated := (collect service input candidateLimit).bounded } := by
  have checked : validateWalk { input with cursor := cursor } pageSize candidateLimit = .ok () := valid.checked
  have same : requestFingerprint service { input with cursor := cursor } pageSize candidateLimit =
      requestFingerprint service input pageSize candidateLimit := rfl
  have walked : collect service { input with cursor := cursor } candidateLimit = collect service input candidateLimit := rfl
  unfold walk
  rw [← valid.size, ← valid.limit]
  simp only [checked, same, found, walked, bind, Except.bind]
  rw [if_neg (Nat.not_lt.mpr within)]
  rfl

omit [DecidableEq N] in
theorem fingerprint_plain : (∀ char ∈ requestFingerprint service input pageSize candidateLimit, Plain char) ∧
    (requestFingerprint service input pageSize candidateLimit).length = 43 :=
  ⟨plain_of_digest, digest_length _ _⟩

theorem offsetOf_cursor (spelled : Spelled service.numbers) {offset : Nat} (small : offset ≤ MAX_CANDIDATES) :
    offsetOf service { input with cursor := some (encodeCursor service ⟨requestFingerprint service input pageSize candidateLimit, offset⟩) }
      (requestFingerprint service input pageSize candidateLimit) = .ok offset := by
  obtain ⟨filled, read⟩ := decodeCursor_encodeCursor spelled fingerprint_plain.1 fingerprint_plain.2 small
  rw [offsetOf]
  dsimp only
  rw [if_neg filled, read]
  rfl

theorem pages_from (spelled : Spelled service.numbers) (valid : Valid input pageSize candidateLimit) {cursor : Option Text} {offset : Nat}
    (found : offsetOf service { input with cursor := cursor } (requestFingerprint service input pageSize candidateLimit) = .ok offset)
    (within : offset ≤ (collect service input candidateLimit).candidates.length) :
    ∃ pages, Pages service input cursor pages ∧
      pages.flatMap (·.candidates) = (collect service input candidateLimit).candidates.drop offset ∧
      ∀ page ∈ pages, page.truncated = (collect service input candidateLimit).bounded := by
  have few : (collect service input candidateLimit).candidates.length ≤ MAX_CANDIDATES :=
    Nat.le_trans (takeLevels_length (Nat.zero_le _)) valid.bounds.2
  have some_size := valid.bounds.1
  induction left : (collect service input candidateLimit).candidates.length - offset using Nat.strongRecOn generalizing offset cursor with
  | ind left ih =>
    have walked := walk_at valid found within
    have size : (((collect service input candidateLimit).candidates.drop offset).take pageSize).length =
        min pageSize ((collect service input candidateLimit).candidates.length - offset) := by
      rw [List.length_take, List.length_drop]
    rw [size] at walked
    split at walked
    next more =>
      have small : offset + min pageSize ((collect service input candidateLimit).candidates.length - offset) ≤ MAX_CANDIDATES := by omega
      obtain ⟨rest, later, listed, truncated⟩ := ih _ (by omega) (offsetOf_cursor spelled small) (by omega) rfl
      refine ⟨_, .next walked rfl later, ?_, List.forall_mem_cons.mpr ⟨rfl, truncated⟩⟩
      rw [List.flatMap_cons, listed, ← List.drop_drop]
      have shorter : min pageSize ((collect service input candidateLimit).candidates.length - offset) = pageSize := by omega
      rw [shorter]
      exact List.take_append_drop _ _
    next ends =>
      refine ⟨_, .last walked rfl, ?_, ?_⟩
      · rw [List.flatMap_singleton, List.take_of_length_le]
        rw [List.length_drop]
        omega
      · intro page member
        rw [List.mem_singleton.mp member]

/-- All pages of a request are what the walk found, in its order. -/
theorem pages_found (spelled : Spelled service.numbers) {graph : Text → List (RelationEdgeCandidate Details)}
    (serves : Serves graph service.listAdjacent) (valid : Valid input pageSize candidateLimit) :
    ∃ pages, Pages service input none pages ∧ (∀ others, Pages service input none others → others = pages) ∧
      pages.flatMap (·.candidates) = (collect service input candidateLimit).candidates ∧
      (∀ page ∈ pages, page.truncated = (collect service input candidateLimit).bounded) ∧
      Found (graph input.tenantId) input.startEntityId input.maxDepth (collect service input candidateLimit).candidates
        (collect service input candidateLimit).bounded := by
  obtain ⟨pages, all, listed, truncated⟩ := @pages_from _ _ _ _ _ _ _ spelled valid none 0 rfl (Nat.zero_le _)
  exact ⟨pages, all, fun others again => all.unique again, listed, truncated, collect_found serves input valid.bounds.2⟩

end Walks

private def star (_ : Text) : List (RelationEdgeCandidate Unit) :=
  [⟨[49], [97], [98], ()⟩, ⟨[50], [97], [99], ()⟩, ⟨[51], [97], [100], ()⟩]

private def request : RelationWalkInput := ⟨[116], [97], 1, none, some 1, none⟩

private def cutting : BoundedRelationWalkService Whole Unit where
  listAdjacent input := ((star input.tenantId).filter (incident input.entityIds)).take input.limit
  signingKey := List.replicate 32 0
  numbers := Whole.numbers
  localeCompare := .ofLinearOrder Text
  strong := by rw [List.length_replicate]

private def silent : BoundedRelationWalkService Whole Unit :=
  { cutting with
    listAdjacent input :=
      if ((star input.tenantId).filter (incident input.entityIds)).length ≤ input.limit then
        (star input.tenantId).filter (incident input.entityIds)
      else [] }

theorem three_relations_found : ∃ pages, Pages cutting request none pages ∧ (∀ others, Pages cutting request none others → others = pages) ∧
    pages.flatMap (·.candidates) = (collect cutting request 1).candidates ∧
    (∀ page ∈ pages, page.truncated = (collect cutting request 1).bounded) ∧
    Found (star [116]) [97] 1 (collect cutting request 1).candidates (collect cutting request 1).bounded := by
  have spelled : Spelled Whole.numbers := by
    intro value _
    change Whole.integerText value = _
    rw [Whole.integerText, if_neg (by omega), Int.natAbs_natCast]
  have serves : Serves star cutting.listAdjacent := by
    refine ⟨⟨fun input edge member => ?_, fun input few edge member near => ?_⟩, fun input many => ?_⟩
    · exact List.mem_filter.mp (List.mem_of_mem_take member)
    · change edge ∈ List.take _ _
      rw [List.take_of_length_le few]
      exact List.mem_filter.mpr ⟨member, near⟩
    · change _ ≤ (List.take _ _).length
      rw [List.length_take]
      omega
  exact pages_found spelled serves ⟨rfl, rfl, rfl⟩

theorem silent_store_not_truncated : Gives star silent.listAdjacent ∧ Valid request 25 1 ∧
    ¬ Found (star [116]) [97] 1 (collect silent request 1).candidates (collect silent request 1).bounded := by
  refine ⟨⟨fun input edge member => ?_, fun input few edge member near => ?_⟩, ⟨rfl, rfl, rfl⟩, fun found => ?_⟩
  · simp only [silent] at member
    split at member
    · exact List.mem_filter.mp member
    · cases member
  · simp only [silent]
    rw [if_pos few]
    exact List.mem_filter.mpr ⟨member, near⟩
  · have next : Distances.AtDistance (Related (star [116])) [97] 1 [98] := by
      rw [Distances.atDistance_succ]
      refine ⟨⟨[97], Distances.atDistance_zero.mpr rfl, ⟨[49], [97], [98], ()⟩, List.mem_cons_self, .inl ⟨rfl, rfl⟩⟩, fun fewer short again => ?_⟩
      obtain rfl := Nat.le_zero.mp short
      cases Distances.atDistance_zero.mp again
    obtain ⟨candidate, member, _⟩ := (found.near rfl 1 [98]).mpr ⟨Nat.le_refl 1, Nat.le_refl 1, next⟩
    cases member

end AgentSaas.Proofs.WalkPages
