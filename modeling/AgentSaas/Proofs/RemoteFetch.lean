import AgentSaas.Outcomes
import AgentSaas.Ssrf

/-! Where a fetch connects to. The hosts and the number of requests are always kept to; an
address is kept to where the host is one, and else where the name is looked up again to an
address that the check accepts. -/

namespace AgentSaas.Proofs.RemoteFetch
open AgentSaas.Outcomes AgentSaas.Ssrf

variable {α : Type} {platform : Platform α} {options : FetchRemoteTextOptions} {network : Network platform}
  {rawUrl : String}

def hostOf (platform : Platform α) (url : Url) : String := platform.normalizeHostname url.hostname

/-- `assertPublicAddress` accepts the address, whatever the host's name in its message. -/
def Public (platform : Platform α) (egress : WebEgressPolicy) (address : String) : Prop :=
  ∀ hostname, platform.assertPublicAddress address hostname egress = .ok ()

structure Confined (platform : Platform α) (options : FetchRemoteTextOptions) (outcome : Outcome) : Prop where
  addresses : ∀ sent ∈ outcome.requests, ∀ address ∈ sent.addresses, Public platform options.egress address
  hosts : ∀ sent ∈ outcome.requests, platform.assertHostPolicy (hostOf platform sent.url) options.egress = .ok ()
  count : outcome.requests.length ≤ options.maxRedirects + 1

/-- The hops that the answers of the network lead to. -/
inductive Reaches (platform : Platform α) (options : FetchRemoteTextOptions) (network : Network platform) (rawUrl : String) :
    Nat → Url → RequestInit → Prop
  | start {url} (validated : platform.validateRemoteUrl (network.lookup 0) rawUrl options.egress = .ok url) :
      Reaches platform options network rawUrl 0 url options.init
  | redirect {hop url init response location next} (reached : Reaches platform options network rawUrl hop url init)
      (answered : (network.fetch hop url init).response = .ok response) (redirected : response.target = some location)
      (within : hop < options.maxRedirects)
      (validated : follow platform options network (hop + 1) url location = .ok next) :
      Reaches platform options network rawUrl (hop + 1) next (platform.redirectInit response.status init)

theorem assert_anyHost {address hostname : String} {egress : WebEgressPolicy}
    (accepted : platform.assertPublicAddress address hostname egress = .ok ()) : Public platform egress address := by
  intro other
  unfold Platform.assertPublicAddress at accepted ⊢
  split
  next => rfl
  next closed =>
    rw [if_neg closed] at accepted
    cases parsed : platform.ipaddr.parse address with
    | none =>
      rw [parsed] at accepted
      cases accepted
    | some ip =>
      simp only [parsed] at accepted ⊢
      exact ok_iff_check.mpr (ok_iff_check.mp accepted)

theorem checkUrl_host {egress : WebEgressPolicy} {url : Url} (checked : platform.checkUrl rawUrl egress = .ok url) :
    platform.assertHostPolicy (hostOf platform url) egress = .ok () := by
  unfold Platform.checkUrl at checked
  split at checked
  next url found =>
    have checked := (of_ok_check (of_ok_check (of_ok_check checked).2).2).2
    obtain ⟨_, accepted, checked⟩ := of_ok_bind checked
    cases checked
    exact accepted
  next => cases checked

theorem validated_passed {lookup : String → Except String (List String)} {egress : WebEgressPolicy} {url : Url}
    (validated : platform.validateRemoteUrl lookup rawUrl egress = .ok url) :
    platform.assertHostPolicy (hostOf platform url) egress = .ok () ∧
      (platform.isIP (hostOf platform url) → Public platform egress (hostOf platform url)) := by
  obtain ⟨checked, found, validated⟩ := of_ok_bind validated
  have host := checkUrl_host found
  simp only at validated
  split at validated
  next =>
    obtain ⟨_, accepted, validated⟩ := of_ok_bind validated
    cases validated
    exact ⟨host, fun _ => assert_anyHost accepted⟩
  next name =>
    split at validated
    next => cases validated
    next => cases validated
    next =>
      obtain ⟨_, _, validated⟩ := of_ok_bind validated
      cases validated
      exact ⟨host, fun literal => (name literal).elim⟩

theorem follow_passed {hop : Nat} {current next : Url} {location : String}
    (followed : follow platform options network hop current location = .ok next) :
    platform.assertHostPolicy (hostOf platform next) options.egress = .ok () ∧
      (platform.isIP (hostOf platform next) → Public platform options.egress (hostOf platform next)) := by
  unfold follow at followed
  split at followed
  next => cases followed
  next => exact validated_passed followed

theorem Reaches.passed {hop : Nat} {url : Url} {init : RequestInit} (reached : Reaches platform options network rawUrl hop url init) :
    platform.assertHostPolicy (hostOf platform url) options.egress = .ok () ∧
      (platform.isIP (hostOf platform url) → Public platform options.egress (hostOf platform url)) := by
  cases reached with
  | start validated => exact validated_passed validated
  | redirect _ _ _ _ validated => exact follow_passed validated

def sentAt (network : Network platform) (hop : Nat) (url : Url) (init : RequestInit) : Sent :=
  ⟨url, init, (network.fetch hop url init).addresses⟩

theorem fetchHops_redirect {left hop : Nat} {url next : Url} {init : RequestInit} {response : Response} {location : String}
    (answered : (network.fetch hop url init).response = .ok response) (redirected : response.target = some location)
    (some : left ≠ 0) (followed : follow platform options network (hop + 1) url location = .ok next) :
    (fetchHops platform options network rawUrl (left + 1) hop url init).requests =
      sentAt network hop url init ::
        (fetchHops platform options network rawUrl left (hop + 1) next
          (platform.redirectInit response.status init)).requests := by
  rw [fetchHops]
  simp only [answered, redirected, if_neg some, followed]
  rfl

theorem Reaches.requested {hop : Nat} {url : Url} {init : RequestInit}
    (reached : Reaches platform options network rawUrl hop url init) :
    hop ≤ options.maxRedirects ∧ ∃ before, (fetchRemoteText platform options network rawUrl).requests =
      before ++ (fetchHops platform options network rawUrl (options.maxRedirects - hop + 1) hop url init).requests := by
  induction reached with
  | start validated =>
    refine ⟨Nat.zero_le _, [], ?_⟩
    rw [fetchRemoteText, validated]
    rfl
  | @redirect hop url init response location next reached answered redirected within followed ih =>
    obtain ⟨_, before, requests⟩ := ih
    have left : options.maxRedirects - hop = options.maxRedirects - (hop + 1) + 1 := by omega
    refine ⟨within, before ++ [sentAt network hop url init], ?_⟩
    rw [requests, fetchHops_redirect answered redirected (by omega) followed, left, List.append_assoc]
    rfl

theorem Reaches.sent {hop : Nat} {url : Url} {init : RequestInit}
    (reached : Reaches platform options network rawUrl hop url init) :
    sentAt network hop url init ∈ (fetchRemoteText platform options network rawUrl).requests := by
  obtain ⟨_, before, requests⟩ := reached.requested
  rw [requests, fetchHops]
  exact List.mem_append_right _ List.mem_cons_self

end AgentSaas.Proofs.RemoteFetch
