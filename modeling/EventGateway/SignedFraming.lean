import EventGateway.JsonGrammar
import EventGateway.WebhookSecurity

namespace EventGateway.WebhookSecurity

open JsonGrammar (IsObjectText)

def IsJsonObjectBody (rawBody : Bytes) : Prop := ∃ s, rawBody = utf8 s ∧ IsObjectText s

theorem utf8_append (s s' : Text) : utf8 (s ++ s') = utf8 s ++ utf8 s' := List.flatMap_append

theorem utf8_injective {s s' : Text} (h : utf8 s = utf8 s') : s = s' := by
  have hbytes : s.utf8Encode = s'.utf8Encode := congrArg List.toByteArray h
  rw [← String.toByteArray_ofList, ← String.toByteArray_ofList, String.toByteArray_inj] at hbytes
  exact String.ofList_injective hbytes

theorem signedMessage_utf8 (timestamp nonce s : Text) :
    signedMessage timestamp nonce (utf8 s) = utf8 (timestamp ++ '.' :: (nonce ++ '.' :: s)) := by
  have hdot (s : Text) : utf8 ('.' :: s) = utf8 ['.'] ++ utf8 s := utf8_append ['.'] s
  rw [signedMessage, utf8_append, hdot (nonce ++ '.' :: s), utf8_append, hdot s]
  simp only [List.append_assoc]

theorem split_at_first {t t' x x' : Text} (ht : '.' ∉ t) (ht' : '.' ∉ t') (h : t ++ '.' :: x = t' ++ '.' :: x') :
    t = t' ∧ x = x' := by
  -- the first separator ends the timestamp
  induction t generalizing t' with
  | nil =>
    cases t' with
    | nil => exact ⟨rfl, (List.cons.inj h).2⟩
    | cons c t' => exact absurd (List.cons.inj h).1 (fun hc => ht' (by simp [← hc]))
  | cons c t ih =>
    cases t' with
    | nil => exact absurd (List.cons.inj h).1 (fun hc => ht (by simp [hc]))
    | cons c' t' =>
      obtain ⟨hc, h⟩ := List.cons.inj h
      obtain ⟨rfl, hx⟩ := ih (fun hm => ht (List.mem_cons_of_mem c hm)) (fun hm => ht' (List.mem_cons_of_mem c' hm)) h
      exact ⟨by rw [hc], hx⟩

theorem split_at_object {n n' s s' : Text} (hs : IsObjectText s) (hs' : IsObjectText s')
    (h : n ++ '.' :: s = n' ++ '.' :: s') : n = n' ∧ s = s' := by
  -- the last separator before an object text ends the nonce
  rcases List.append_eq_append_iff.mp h with ⟨u, rfl, hu⟩ | ⟨u, rfl, hu⟩
  · cases u with
    | nil => exact ⟨by simp, (List.cons.inj hu).2⟩
    | cons c u => exact absurd (List.cons.inj hu).2 (hs.not_suffix hs')
  · cases u with
    | nil => exact ⟨by simp, (List.cons.inj hu).2.symm⟩
    | cons c u => exact absurd (List.cons.inj hu).2 (hs'.not_suffix hs)

theorem dot_not_mem_timestamp {t : Text} (h : unixTimestampPattern t = true) : '.' ∉ t := by
  intro hm
  rw [unixTimestampPattern, Bool.and_eq_true, List.all_eq_true] at h
  exact absurd (h.2 '.' hm) (by decide)

theorem signedMessage_unambiguous {t t' n n' : Text} {b b' : Bytes} (ht : unixTimestampPattern t = true)
    (ht' : unixTimestampPattern t' = true) (hb : IsJsonObjectBody b) (hb' : IsJsonObjectBody b')
    (h : signedMessage t n b = signedMessage t' n' b') : t = t' ∧ n = n' ∧ b = b' := by
  obtain ⟨s, rfl, hs⟩ := hb
  obtain ⟨s', rfl, hs'⟩ := hb'
  rw [signedMessage_utf8, signedMessage_utf8] at h
  obtain ⟨rfl, hrest⟩ :=
    split_at_first (dot_not_mem_timestamp ht) (dot_not_mem_timestamp ht') (utf8_injective h)
  obtain ⟨rfl, rfl⟩ := split_at_object hs hs' hrest
  exact ⟨rfl, rfl, rfl⟩

open JsonGrammar in
theorem isObjectText_sample : IsObjectText "\x7b\"k\":1.5\x7d".toList := by
  have hvalue : Derives .value "1.5".toList := by
    have hone : Integer ['1'] := .digits (by decide) (by decide) (by simp)
    have hfraction : Fraction ['.', '5'] := .dot ⟨by simp, List.forall_iff_forall_mem.mp (by decide)⟩
    exact .number (Or.inl rfl) hone hfraction .nil
  have hws : Ws [] := fun c hc => absurd hc (by simp)
  have hkey : Characters ['k'] := .plain (by decide) (by decide) (by decide) .nil
  have helement : Derives .element "1.5".toList := .element hws hvalue hws
  exact ⟨[], _, [], hws, .object (.lastMember (.member hws hkey hws helement)), hws, rfl⟩

theorem signedMessage_unambiguous_sample :
    let nonce := "a.\x7b\"k\":1.5\x7d.\"".toList
    let body := utf8 "\x7b\"k\":1.5\x7d".toList
    IsJsonObjectBody body ∧ signedMessage "1767225600".toList nonce body = signedMessage "1767225600".toList nonce body ∧
      nonce = nonce ∧ body = body := by
  have hbody : IsJsonObjectBody (utf8 "\x7b\"k\":1.5\x7d".toList) := ⟨_, rfl, isObjectText_sample⟩
  have h := signedMessage_unambiguous (t := "1767225600".toList) (n := "a.\x7b\"k\":1.5\x7d.\"".toList) (by decide)
    (by decide) hbody hbody rfl
  exact ⟨hbody, rfl, h.2⟩

end EventGateway.WebhookSecurity
