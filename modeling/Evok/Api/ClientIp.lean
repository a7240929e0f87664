import Evok.Api.Auth
import Mathlib.Data.List.DropRight
import Mathlib.Data.List.TakeWhile

/-!
# The address of a client

`client_ip`: the address of the connection, or the one which a trusted proxy gives in a header. The
addresses of `X-Forwarded-For` are read from the end, a client can write only the beginning.

## Main definitions

* `Downstream`: the addresses and the networks of `ipaddress`.
* `Downstream.clientIp`: the address of the client of a request.

## Main results

* `Downstream.fromEnd_append`: the loop ends at the last address which is not of a proxy.
* `Downstream.clientIp_unforgeable`: what is left of this address has no influence.
-/

namespace Evok

namespace Api

/-- `ip_address()` of a text, any function, and the trusted networks, by the addresses in them. -/
structure Downstream (Ip : Type) where
  ipAddress : List Char → Option Ip
  trustedDownstream : List (Ip → Bool)

/-- What `client_ip` reads of a request. -/
structure ClientRequest where
  remoteIp : List Char
  forwardedFor : Option (List Char) := none
  realIp : Option (List Char) := none

/-! ## Spaces -/

theorem strip_eq_rdropWhile (text : List Char) :
    strip text = (text.dropWhile isSpace).rdropWhile isSpace := rfl

theorem strip_strip (text : List Char) : strip (strip text) = strip text := by
  simp only [strip_eq_rdropWhile]
  set tail := text.dropWhile isSpace
  have hbegins : tail.rdropWhile isSpace <+: tail := List.rdropWhile_prefix isSpace tail
  -- the first character is not a space, unless nothing is left
  have hhead : (tail.rdropWhile isSpace).dropWhile isSpace = tail.rdropWhile isSpace := by
    rw [List.dropWhile_eq_self_iff]
    intro hpos
    have htail : tail.dropWhile isSpace = tail := List.dropWhile_idempotent isSpace text
    rw [hbegins.getElem hpos]
    exact List.dropWhile_eq_self_iff.mp htail (hpos.trans_le hbegins.length_le)
  rw [hhead, List.rdropWhile_idempotent]

/-- The elements of a list do not contain its separator. -/
theorem notMem_of_mem_splitOn {separator : Char} {text element : List Char}
    (h : element ∈ text.splitOn separator) : separator ∉ element := by
  induction text generalizing element with
  | nil =>
    rw [List.splitOn_nil, List.mem_singleton] at h
    subst h
    exact List.not_mem_nil
  | cons c text ih =>
    rw [List.splitOn_cons_eq_if_modifyHead] at h
    obtain ⟨first, rest, hsplit⟩ := List.exists_cons_of_ne_nil (List.splitOn_ne_nil separator text)
    rw [hsplit] at h ih
    by_cases hc : c == separator
    · rw [if_pos hc] at h
      rcases List.mem_cons.mp h with rfl | h
      · exact List.not_mem_nil
      · exact ih h
    · rw [if_neg hc, List.modifyHead_cons] at h
      rcases List.mem_cons.mp h with rfl | h
      · intro hmem
        rcases List.mem_cons.mp hmem with rfl | hmem
        · simp at hc
        · exact ih List.mem_cons_self hmem
      · exact ih (List.mem_cons_of_mem _ h)

namespace Downstream

variable {Ip : Type} (downstream : Downstream Ip)

/-- `_ip`: the address of a text, `none` if it is not an IP address. -/
def ip (address : List Char) : Option Ip :=
  downstream.ipAddress (strip address)

/-- `_is_trusted`. -/
def isTrusted (address : List Char) : Bool :=
  match downstream.ip address with
  | some ip => downstream.trustedDownstream.any (· ip)
  | none => false

/-- The loop of `client_ip` over the addresses from the end. -/
def fromEnd (address : List Char) : List (List Char) → List Char
  | [] => address
  | candidate :: rest =>
    if (downstream.ip candidate).isNone then address
    else if ¬ downstream.isTrusted (strip candidate) then strip candidate
    else fromEnd (strip candidate) rest

/-- `client_ip`. -/
def clientIp (request : ClientRequest) : List Char :=
  let address := request.remoteIp
  if ¬ downstream.isTrusted address then address
  else
    let forwarded := request.forwardedFor.getD []
    if forwarded ≠ [] then downstream.fromEnd address (forwarded.splitOn ',').reverse
    else
      let realIp := request.realIp.getD []
      if (downstream.ip realIp).isSome then strip realIp else address

/-! ## The loop -/

@[simp] theorem ip_strip (address : List Char) :
    downstream.ip (strip address) = downstream.ip address := by
  rw [ip, strip_strip, ip]

@[simp] theorem isTrusted_strip (address : List Char) :
    downstream.isTrusted (strip address) = downstream.isTrusted address := by
  simp only [isTrusted, ip_strip]

/-- The address of a trusted proxy is an IP address. -/
theorem isSome_of_isTrusted {address : List Char} (h : downstream.isTrusted address) :
    (downstream.ip address).isSome := by
  unfold isTrusted at h
  split at h
  · next ip hip => rw [hip]; rfl
  · cases h

/-- A trusted proxy is skipped. -/
theorem fromEnd_trusted (address : List Char) {candidate : List Char} (rest : List (List Char))
    (h : downstream.isTrusted candidate) :
    downstream.fromEnd address (candidate :: rest) =
      downstream.fromEnd (strip candidate) rest := by
  have hip := downstream.isSome_of_isTrusted h
  simp [fromEnd, h, Option.isSome_iff_ne_none.mp hip]

/-- What the loop returns at an element which is not of a proxy, with the address right of it. -/
def client (address candidate : List Char) : List Char :=
  if (downstream.ip candidate).isSome then strip candidate else address

theorem fromEnd_client (address : List Char) {candidate : List Char} (rest : List (List Char))
    (h : downstream.isTrusted candidate = false) :
    downstream.fromEnd address (candidate :: rest) = downstream.client address candidate := by
  cases hip : downstream.ip candidate <;> simp [fromEnd, client, hip, h]

/-- The loop ends at the first element from the end which is not of a proxy. -/
theorem fromEnd_append (address : List Char) {proxies : List (List Char)} {candidate : List Char}
    (rest : List (List Char)) (trusted : ∀ proxy ∈ proxies, downstream.isTrusted proxy)
    (h : downstream.isTrusted candidate = false) :
    downstream.fromEnd address (proxies ++ candidate :: rest) =
      downstream.client ((proxies.getLast?.map strip).getD address) candidate := by
  induction proxies generalizing address with
  | nil => exact downstream.fromEnd_client address rest h
  | cons proxy proxies ih =>
    have hproxy := trusted proxy List.mem_cons_self
    rw [List.cons_append, fromEnd_trusted _ _ _ hproxy,
      ih _ fun other hother => trusted other (List.mem_cons_of_mem _ hother)]
    rw [List.getLast?_cons]
    cases proxies.getLast? <;> rfl

/-! ## The client -/

/-- A connection which is not of a trusted proxy. -/
theorem clientIp_direct {request : ClientRequest} (h : downstream.isTrusted request.remoteIp = false) :
    downstream.clientIp request = request.remoteIp := by
  simp [clientIp, h]

/-- The client in the list of a trusted proxy. -/
theorem clientIp_forwarded {remoteIp forwarded candidate : List Char}
    {before after : List (List Char)} (realIp : Option (List Char))
    (peer : downstream.isTrusted remoteIp) (nonempty : forwarded ≠ [])
    (elements : forwarded.splitOn ',' = before ++ candidate :: after)
    (trusted : ∀ proxy ∈ after, downstream.isTrusted proxy)
    (h : downstream.isTrusted candidate = false) :
    downstream.clientIp ⟨remoteIp, some forwarded, realIp⟩ =
      downstream.client ((after.head?.map strip).getD remoteIp) candidate := by
  have htrusted : ∀ proxy ∈ after.reverse, downstream.isTrusted proxy :=
    fun proxy hproxy => trusted proxy (List.mem_reverse.mp hproxy)
  have hreverse : (before ++ candidate :: after).reverse =
      after.reverse ++ candidate :: before.reverse := by simp
  simp only [clientIp, peer, Option.getD_some, not_true_eq_false, if_false, ne_eq, nonempty,
    not_false_eq_true, if_true, elements]
  rw [hreverse, fromEnd_append _ _ _ htrusted h, List.getLast?_reverse]

/-- The elements of another list with the same end. -/
theorem splitOn_append_intercalate {forwarded candidate : List Char}
    {before after : List (List Char)} (left : List Char)
    (elements : forwarded.splitOn ',' = before ++ candidate :: after) :
    (left ++ ',' :: [','].intercalate (candidate :: after)).splitOn ',' =
      left.splitOn ',' ++ candidate :: after := by
  have hcommas : ∀ element ∈ candidate :: after, ',' ∉ element := by
    intro element helement
    have hmem : element ∈ forwarded.splitOn ',' :=
      elements ▸ List.mem_append_right _ helement
    exact notMem_of_mem_splitOn hmem
  rw [List.splitOn_append_cons_self, List.splitOn_intercalate _ hcommas (List.cons_ne_nil _ _)]

/-- The client cannot forge its address: of an untrusted connection the headers do not matter, of
the list of a trusted proxy nothing left of the last address which is not of a proxy. -/
theorem clientIp_unforgeable (remoteIp : List Char) :
    (downstream.isTrusted remoteIp = false → ∀ forwardedFor realIp,
      downstream.clientIp ⟨remoteIp, forwardedFor, realIp⟩ = remoteIp) ∧
    (downstream.isTrusted remoteIp = true → ∀ forwarded realIp before candidate after,
      forwarded ≠ [] → forwarded.splitOn ',' = before ++ candidate :: after →
      downstream.isTrusted candidate = false →
      (∀ proxy ∈ after, downstream.isTrusted proxy = true) →
        downstream.clientIp ⟨remoteIp, some forwarded, realIp⟩ =
          (if (downstream.ip candidate).isSome then strip candidate
            else (after.head?.map strip).getD remoteIp) ∧
        ∀ left realIp', downstream.clientIp ⟨remoteIp,
            some (left ++ ',' :: [','].intercalate (candidate :: after)), realIp'⟩ =
          downstream.clientIp ⟨remoteIp, some forwarded, realIp⟩) := by
  constructor
  · intro direct forwardedFor realIp
    exact downstream.clientIp_direct direct
  · intro peer forwarded realIp before candidate after nonempty elements untrusted trusted
    have hclient := downstream.clientIp_forwarded realIp peer nonempty elements trusted untrusted
    refine ⟨hclient, fun left realIp' => ?_⟩
    rw [hclient]
    exact downstream.clientIp_forwarded realIp' peer (by simp)
      (splitOn_append_intercalate left elements) trusted untrusted

/-- A proxy of the host and the ones of a network, whose addresses are of digits and dots. -/
def proxies : Downstream (List Char) :=
  ⟨fun text => if text.all fun c => c.isDigit || c = '.' then some text else none,
    [(· = "127.0.0.1".toList), ("10.".toList.isPrefixOf ·)]⟩

/-- The client writes the first addresses of the list, the proxies append the other ones. -/
theorem clientIp_unforgeable_proxies :
    proxies.clientIp ⟨"1.2.3.4".toList, some "10.0.0.5".toList, none⟩ = "1.2.3.4".toList ∧
      proxies.clientIp ⟨"127.0.0.1".toList, some "1.2.3.4, 192.168.1.20, 10.0.0.5".toList, none⟩ =
        "192.168.1.20".toList ∧
      ∀ left realIp, proxies.clientIp ⟨"127.0.0.1".toList,
        some (left ++ ", 192.168.1.20, 10.0.0.5".toList), realIp⟩ = "192.168.1.20".toList := by
  have hdirect := (clientIp_unforgeable proxies "1.2.3.4".toList).1 (by decide +kernel)
  obtain ⟨hclient, hleft⟩ := (clientIp_unforgeable proxies "127.0.0.1".toList).2 (by decide +kernel)
    "1.2.3.4, 192.168.1.20, 10.0.0.5".toList none ["1.2.3.4".toList] " 192.168.1.20".toList
    [" 10.0.0.5".toList] (by decide +kernel) (by decide +kernel) (by decide +kernel)
    (by decide +kernel)
  have hvalue : proxies.clientIp
      ⟨"127.0.0.1".toList, some "1.2.3.4, 192.168.1.20, 10.0.0.5".toList, none⟩ =
        "192.168.1.20".toList := hclient.trans (by decide +kernel)
  exact ⟨hdirect _ _, hvalue, fun left realIp => (hleft left realIp).trans hvalue⟩

end Downstream

end Api

end Evok
