import Aivcs.Lib.IpAddr
import Aivcs.Lib.Text

/-!
# Cli.ForgeUrlPolicy — which URLs a forge may have

`validate_forge_url` allows every `https` URL, and plain HTTP to loopback, to Service DNS names of the cluster
and, with `tailscale`, to the tailnet.  It looks for the loopback names at the front of the URL and for the other
hosts with its own splitter.

* `hostOf` — the host, as RFC 3986 reads it;
* `validateForgeUrl_eq_ok_iff` — the URLs that are allowed;
* `trusted_of_not_misread` — where the splitter and the test for loopback names are right;
* `plainHttpStays_unless_misread` — plain HTTP stays in the trusted network but for the spellings they get
  wrong.
-/

namespace Aivcs
namespace Cli

open Lib

/-! ## The policy -/

/-- The text before the first slash, its part after the last `@`, and that up to the last colon; without such
a colon the whole text before the slash. -/
def hostFromUrl (url : List Char) : Option (List Char) := do
  let rest ← (url.dropPrefix? "http://".toList).or (url.dropPrefix? "https://".toList)
  let authority ← (rest.splitOn '/').head?
  let last ← (authority.splitOn '@').getLast?
  match rsplitOnce ':' last with
  | some (host, _) => some host
  | none => some authority

def isPrivateOrTailscaleIp : IpAddr → Bool
  | .v4 a b _ _ =>
      a = 127 || a = 10 || (a = 172 && 16 ≤ b && b ≤ 31) || (a = 192 && b = 168) ||
        (a = 100 && 64 ≤ b && b ≤ 127)
  | .v6 segments => segments = [0, 0, 0, 0, 0, 0, 0, 1]

def isTailscaleRoutableHost (host : List Char) : Bool :=
  if ".ts.net".toList.isSuffixOf host then true
  else
    match IpAddr.parse host with
    | some ip => isPrivateOrTailscaleIp ip
    | none => false

/-- `url.trim().trim_end_matches('/')`. -/
def normalize (url : String) : List Char :=
  trimEnd (fun c => c = '/') (trimBoth isWhitespace url.toList)

/-- `debug` is the quoting of `{:?}` in one of the messages. -/
def validateForgeUrl (debug : String → String) (url : String) (tailscale : Bool) : Except String Unit :=
  let normalized := normalize url
  if normalized.isEmpty then .error "forge URL must not be empty"
  else if "https://".toList.isPrefixOf normalized then .ok ()
  else if "http://127.0.0.1".toList.isPrefixOf normalized || "http://localhost".toList.isPrefixOf normalized then
    .ok ()
  else
    match hostFromUrl normalized with
    | none =>
        .error ("forge URL must start with http:// or https:// (got " ++ debug (String.ofList normalized) ++ ")")
    | some host =>
        if ".svc.cluster.local".toList.isSuffixOf host then .ok ()
        else if tailscale && isTailscaleRoutableHost host then .ok ()
        else
          .error ("forge URL must use HTTPS; HTTP is allowed only for loopback, Kubernetes Service DNS, " ++
            "or private/tailnet addresses with `aivcs login --tailscale`")

def isAllowedForgeUrl (debug : String → String) (url : String) (tailscale : Bool) : Bool :=
  (validateForgeUrl debug url tailscale).isOk

/-! ## Hosts -/

/-- A name or an IPv4 address, or what stands in brackets. -/
inductive Host where
  | name (text : List Char)
  | literal (address : List Char)
  deriving DecidableEq

/-- The authority ends at the first slash, question mark or number sign. -/
def authorityOf (rest : List Char) : List Char :=
  rest.takeWhile fun c => c ≠ '/' ∧ c ≠ '?' ∧ c ≠ '#'

/-- What follows the last `@` of the authority. -/
def hostPort (rest : List Char) : List Char :=
  afterLast '@' (authorityOf rest)

/-- The host of a URL whose text after the scheme is `rest`: it precedes the port. -/
def hostOf (rest : List Char) : Host :=
  match hostPort rest with
  | '[' :: cs => .literal (upTo ']' cs)
  | cs => .name (upTo ':' cs)

/-- Loopback, the private networks 10/8, 172.16/12 and 192.168/16, and the shared address space 100.64/10. -/
inductive TrustedAddress : IpAddr → Prop where
  | loopback (b c d : UInt8) : TrustedAddress (.v4 127 b c d)
  | private10 (b c d : UInt8) : TrustedAddress (.v4 10 b c d)
  | private172 {b : UInt8} (c d : UInt8) : 16 ≤ b → b ≤ 31 → TrustedAddress (.v4 172 b c d)
  | private192 (c d : UInt8) : TrustedAddress (.v4 192 168 c d)
  | cgnat {b : UInt8} (c d : UInt8) : 64 ≤ b → b ≤ 127 → TrustedAddress (.v4 100 b c d)
  | loopback6 : TrustedAddress (.v6 [0, 0, 0, 0, 0, 0, 0, 1])

/-- The text of a trusted address. -/
def IsTrustedAddress (text : List Char) : Prop :=
  ∃ ip, IpAddr.parse text = some ip ∧ TrustedAddress ip

def loopbackNames : List (List Char) :=
  ["127.0.0.1".toList, "localhost".toList]

/-- The names that are trusted apart from loopback. -/
def TrustedName (tailscale : Bool) (name : List Char) : Prop :=
  ".svc.cluster.local".toList <:+ name ∨
    tailscale = true ∧ (".ts.net".toList <:+ name ∨ IsTrustedAddress name)

def Trusted (tailscale : Bool) : Host → Prop
  | .name text => text ∈ loopbackNames ∨ TrustedName tailscale text
  | .literal address => tailscale = true ∧ IsTrustedAddress address

/-- Plain HTTP does not leave the trusted network. -/
def PlainHttpStays (debug : String → String) (tailscale : Bool) (url : String) : Prop :=
  let trimmed := trimBoth isWhitespace url.toList
  validateForgeUrl debug url tailscale = .ok () → ¬ "https://".toList <+: trimmed →
    ∃ rest, trimmed = "http://".toList ++ rest ∧ Trusted tailscale (hostOf rest)

/-! ## What is allowed -/

/-- The text before the first slash shows this host at its end, apart from a port. -/
inductive Shown : List Char → List Char → Prop where
  | whole {text : List Char} : ':' ∉ afterLast '@' text → Shown text text
  | beforePort {text host port : List Char} : afterLast '@' text = host ++ ':' :: port → ':' ∉ port →
      Shown text host

/-- The text begins with a loopback name, or shows a trusted host at its end. -/
def LooksTrusted (tailscale : Bool) (text : List Char) : Prop :=
  (∃ name ∈ loopbackNames, name <+: text) ∨ ∃ host, Shown text host ∧ TrustedName tailscale host

theorem isPrivateOrTailscaleIp_iff (ip : IpAddr) : isPrivateOrTailscaleIp ip = true ↔ TrustedAddress ip := by
  constructor
  · intro h
    cases ip with
    | v4 a b c d =>
        simp only [isPrivateOrTailscaleIp, Bool.or_eq_true, Bool.and_eq_true, decide_eq_true_eq] at h
        rcases h with (((rfl | rfl) | ⟨⟨rfl, hlow⟩, hhigh⟩) | ⟨rfl, rfl⟩) | ⟨⟨rfl, hlow⟩, hhigh⟩
        · exact .loopback b c d
        · exact .private10 b c d
        · exact .private172 c d hlow hhigh
        · exact .private192 c d
        · exact .cgnat c d hlow hhigh
    | v6 segments =>
        rw [of_decide_eq_true h]
        exact .loopback6
  · intro h
    cases h <;> simp_all [isPrivateOrTailscaleIp]

theorem isTailscaleRoutableHost_iff (host : List Char) :
    isTailscaleRoutableHost host = true ↔ ".ts.net".toList <:+ host ∨ IsTrustedAddress host := by
  rw [isTailscaleRoutableHost, ← List.isSuffixOf_iff_suffix, IsTrustedAddress]
  cases ".ts.net".toList.isSuffixOf host with
  | true =>
      simp
  | false =>
      cases IpAddr.parse host with
      | none =>
          simp
      | some ip =>
          simpa using isPrivateOrTailscaleIp_iff ip

theorem hostFromUrl_http {rest host : List Char} :
    hostFromUrl ("http://".toList ++ rest) = some host ↔ Shown (upTo '/' rest) host := by
  have hdrop : ("http://".toList ++ rest).dropPrefix? "http://".toList = some rest := dropPrefix?_iff.mpr rfl
  rw [hostFromUrl, hdrop, Option.some_or]
  simp only [Option.bind_eq_bind, Option.bind_some, head?_splitOn, getLast?_splitOn]
  constructor
  · intro h
    split at h
    · rename_i x port hsplit
      cases h
      rcases rsplitOnce_eq_some_iff.mp hsplit with ⟨hlast, hport⟩
      exact .beforePort hlast hport
    · rename_i hsplit
      cases h
      exact .whole (rsplitOnce_eq_none_iff.mp hsplit)
  · intro h
    cases h with
    | whole hcolon =>
        rw [rsplitOnce_eq_none_iff.mpr hcolon]
    | beforePort hlast hport =>
        rw [rsplitOnce_eq_some_iff.mpr ⟨hlast, hport⟩]

theorem exists_rest_of_hostFromUrl {url host : List Char} (h : hostFromUrl url = some host)
    (hhttps : ¬ "https://".toList <+: url) : ∃ rest, url = "http://".toList ++ rest := by
  rcases Option.bind_eq_some_iff.mp h with ⟨rest, hrest, -⟩
  rcases Option.or_eq_some_iff.mp hrest with hhttp | ⟨-, hdrop⟩
  · exact ⟨rest, dropPrefix?_iff.mp hhttp⟩
  · exact absurd ⟨rest, (dropPrefix?_iff.mp hdrop).symm⟩ hhttps

theorem not_https_prefix (rest : List Char) : ¬ "https://".toList <+: "http://".toList ++ rest := by
  rintro ⟨tail, htail⟩
  have hfifth := congrArg (fun cs => cs[4]?) htail
  simp at hfifth

/-- No loopback name has a slash, so it does not matter where the text ends. -/
theorem loopback_prefix_iff (rest : List Char) :
    (∃ name ∈ loopbackNames, name <+: upTo '/' rest) ↔
      "127.0.0.1".toList <+: rest ∨ "localhost".toList <+: rest := by
  simp only [loopbackNames, List.mem_cons, List.not_mem_nil, or_false, exists_eq_or_imp, exists_eq_left]
  rw [prefix_upTo_iff (by decide), prefix_upTo_iff (by decide)]

theorem http_loopback_prefix_iff (rest : List Char) :
    ("http://127.0.0.1".toList.isPrefixOf ("http://".toList ++ rest) ||
      "http://localhost".toList.isPrefixOf ("http://".toList ++ rest)) = true ↔
      ∃ name ∈ loopbackNames, name <+: upTo '/' rest := by
  have h127 : "http://127.0.0.1".toList = "http://".toList ++ "127.0.0.1".toList := by decide
  have hlocalhost : "http://localhost".toList = "http://".toList ++ "localhost".toList := by decide
  rw [loopback_prefix_iff, Bool.or_eq_true, List.isPrefixOf_iff_prefix, List.isPrefixOf_iff_prefix, h127, hlocalhost,
    List.prefix_append_right_inj, List.prefix_append_right_inj]

section Allowed

variable {debug : String → String} {url : String} {tailscale : Bool} {rest : List Char}

/-- The tests on the host that comes out of the URL. -/
theorem trustedName_iff {host : List Char} {message : String} :
    (if ".svc.cluster.local".toList.isSuffixOf host = true then Except.ok ()
      else if (tailscale && isTailscaleRoutableHost host) = true then .ok () else .error message) = .ok () ↔
      TrustedName tailscale host := by
  rw [TrustedName, ← List.isSuffixOf_iff_suffix, ← isTailscaleRoutableHost_iff, ← Bool.and_eq_true]
  cases ".svc.cluster.local".toList.isSuffixOf host <;> cases tailscale && isTailscaleRoutableHost host <;> simp

theorem validateForgeUrl_https (h : "https://".toList <+: normalize url) :
    validateForgeUrl debug url tailscale = .ok () := by
  have hne : (normalize url).isEmpty = false := by
    rcases h with ⟨tail, htail⟩
    rw [← htail]
    rfl
  rw [validateForgeUrl, hne, List.isPrefixOf_iff_prefix.mpr h]
  rfl

/-- HTTPS is always permitted. -/
theorem isAllowedForgeUrl_https (h : "https://".toList <+: normalize url) :
    isAllowedForgeUrl debug url tailscale = true := by
  rw [isAllowedForgeUrl, validateForgeUrl_https h]
  rfl

theorem validateForgeUrl_http (h : normalize url = "http://".toList ++ rest) :
    validateForgeUrl debug url tailscale = .ok () ↔ LooksTrusted tailscale (upTo '/' rest) := by
  have hne : (normalize url).isEmpty = false := by
    rw [h]
    rfl
  have hhttps : ¬ "https://".toList.isPrefixOf (normalize url) = true := by
    rw [List.isPrefixOf_iff_prefix, h]
    exact not_https_prefix rest
  rw [validateForgeUrl, hne, if_neg Bool.false_ne_true, if_neg hhttps, h, LooksTrusted, ← http_loopback_prefix_iff]
  split
  · rename_i hloopback
    exact iff_of_true rfl (.inl hloopback)
  · rename_i hloopback
    rw [or_iff_right hloopback]
    constructor
    · intro hok
      split at hok
      · cases hok
      · rename_i host hhost
        exact ⟨host, hostFromUrl_http.mp hhost, trustedName_iff.mp hok⟩
    · rintro ⟨host, hshown, htrusted⟩
      rw [hostFromUrl_http.mpr hshown]
      exact trustedName_iff.mpr htrusted

theorem validateForgeUrl_other (hhttp : ∀ rest, normalize url ≠ "http://".toList ++ rest)
    (hhttps : ¬ "https://".toList <+: normalize url) : validateForgeUrl debug url tailscale ≠ .ok () := by
  intro hok
  rw [validateForgeUrl] at hok
  split at hok
  · cases hok
  · rw [if_neg (by rwa [List.isPrefixOf_iff_prefix])] at hok
    split at hok
    · rename_i hloopback
      rw [Bool.or_eq_true, List.isPrefixOf_iff_prefix, List.isPrefixOf_iff_prefix] at hloopback
      rcases hloopback with ⟨tail, htail⟩ | ⟨tail, htail⟩
      · exact hhttp ("127.0.0.1".toList ++ tail) htail.symm
      · exact hhttp ("localhost".toList ++ tail) htail.symm
    · split at hok
      · cases hok
      · rename_i hhost
        rcases exists_rest_of_hostFromUrl hhost hhttps with ⟨rest, hrest⟩
        exact hhttp rest hrest

theorem LooksTrusted.ne_nil {text : List Char} (h : LooksTrusted tailscale text) : text ≠ [] := by
  rintro rfl
  rcases h with ⟨name, hname, hprefix⟩ | ⟨host, hshown, htrusted⟩
  · rw [List.prefix_nil.mp hprefix] at hname
    exact absurd hname (by decide)
  · cases hshown with
    | whole =>
        rcases htrusted with hsuffix | ⟨-, hsuffix | ⟨ip, hparse, -⟩⟩
        · exact absurd (List.suffix_nil.mp hsuffix) (by decide)
        · exact absurd (List.suffix_nil.mp hsuffix) (by decide)
        · cases hparse
    | beforePort hlast =>
        exact absurd hlast.symm (by simp [afterLast])

/-- The URLs that are allowed without `https`, in terms of the trimmed text. -/
theorem validateForgeUrl_eq_ok_iff (hhttps : ¬ "https://".toList <+: trimBoth isWhitespace url.toList) :
    validateForgeUrl debug url tailscale = .ok () ↔ ∃ rest,
      trimBoth isWhitespace url.toList = "http://".toList ++ rest ∧ LooksTrusted tailscale (upTo '/' rest) := by
  constructor
  · intro hok
    rcases exists_eq_trimEnd_append (fun c => c = '/') (trimBoth isWhitespace url.toList) with
      ⟨slashes, htrimmed, hslashes⟩
    have hnot : ¬ "https://".toList <+: normalize url := fun h => hhttps (h.trans (trimEnd_isPrefix _ _))
    have hhttp : ∃ rest, normalize url = "http://".toList ++ rest := by
      by_contra hnone
      exact validateForgeUrl_other (fun rest hrest => hnone ⟨rest, hrest⟩) hnot hok
    rcases hhttp with ⟨rest, hrest⟩
    refine ⟨rest ++ slashes, ?_, ?_⟩
    · rw [htrimmed, ← List.append_assoc, ← hrest]
      rfl
    · rw [upTo_append_of_forall_eq fun c hc => of_decide_eq_true (hslashes c hc)]
      exact (validateForgeUrl_http hrest).mp hok
  · rintro ⟨rest, htrimmed, hlooks⟩
    -- Something is left of the text when the slashes at its end are gone.
    have hrest : trimEnd (fun c => c = '/') rest ≠ [] := by
      intro hnil
      apply hlooks.ne_nil
      rw [← upTo_trimEnd, hnil]
      rfl
    have hnormalize : normalize url = "http://".toList ++ trimEnd (fun c => c = '/') rest := by
      rw [normalize, htrimmed, trimEnd_append _ hrest]
    rw [validateForgeUrl_http hnormalize, upTo_trimEnd]
    exact hlooks

end Allowed

/-! ## Where the readings come apart -/

/-- The text before the first slash has a character in it that the splitter takes for one of a host. -/
inductive Tangled (rest : List Char) : Prop where
  | delimiter {c : Char} : c = '?' ∨ c = '#' → c ∈ upTo '/' rest → Tangled rest
  | colons : 2 ≤ (hostPort rest).count ':' → Tangled rest
  | literal : (hostPort rest).head? = some '[' → Tangled rest

/-- The text begins with a loopback name and goes on with more of a name or has userinfo, or it shows a trusted
host and is tangled. -/
inductive Misread (tailscale : Bool) (rest : List Char) : Prop where
  | longer {name after : List Char} {c : Char} : name ∈ loopbackNames → upTo '/' rest = name ++ c :: after →
      c ≠ ':' → c ≠ '?' → c ≠ '#' → Misread tailscale rest
  | userinfo {name : List Char} : name ∈ loopbackNames → name <+: upTo '/' rest → '@' ∈ authorityOf rest →
      Misread tailscale rest
  | shown {host : List Char} : Shown (upTo '/' rest) host → TrustedName tailscale host → Tangled rest →
      Misread tailscale rest

section Readings

variable {tailscale : Bool} {rest : List Char}

theorem authorityOf_eq_upTo (h : ∀ c ∈ upTo '/' rest, c ≠ '?' ∧ c ≠ '#') : authorityOf rest = upTo '/' rest := by
  induction rest with
  | nil =>
      rfl
  | cons c rest ih =>
      by_cases hslash : c = '/'
      · rw [authorityOf, upTo, List.takeWhile_cons_of_neg (by simp [hslash]),
          List.takeWhile_cons_of_neg (by simp [hslash])]
      · have hupTo : upTo '/' (c :: rest) = c :: upTo '/' rest :=
          List.takeWhile_cons_of_pos (by simpa using hslash)
        rw [hupTo] at h ⊢
        have hc := h c List.mem_cons_self
        rw [authorityOf, List.takeWhile_cons_of_pos (by simp [hslash, hc])]
        exact congrArg (c :: ·) (ih fun d hd => h d (List.mem_cons_of_mem c hd))

theorem hostOf_eq_name (h : (hostPort rest).head? ≠ some '[') : hostOf rest = .name (upTo ':' (hostPort rest)) := by
  unfold hostOf
  split
  · rename_i heq
    exact absurd (by rw [heq]; rfl) h
  · rfl

theorem not_mem_at_of_isTrustedAddress {text : List Char} (h : IsTrustedAddress text) : '@' ∉ text := by
  rcases h with ⟨ip, hparse, -⟩
  intro hmem
  exact absurd (IpAddr.addressChar_of_parse hparse '@' hmem) (by decide)

theorem authorityOf_eq_takeWhile : authorityOf rest = (upTo '/' rest).takeWhile fun c => c ≠ '?' ∧ c ≠ '#' := by
  rw [authorityOf, upTo, List.takeWhile_takeWhile]
  refine congrArg (fun p => List.takeWhile p rest) (funext fun c => ?_)
  rw [decide_eq_decide]
  simp only [decide_eq_true_eq]
  tauto

/-- A loopback name is the host, if nothing but a port or a query follows it and there is no userinfo. -/
theorem hostOf_loopback {name after : List Char} (hname : name ∈ loopbackNames)
    (htext : upTo '/' rest = name ++ after) (hafter : ∀ c, after.head? = some c → c = ':' ∨ c = '?' ∨ c = '#')
    (hat : '@' ∉ authorityOf rest) : hostOf rest = .name name := by
  have hplain : ∀ name ∈ loopbackNames, name.head? ≠ some '[' ∧ name ≠ [] ∧ ':' ∉ name ∧
      name.takeWhile (fun c => c ≠ '?' ∧ c ≠ '#') = name := by decide +kernel
  obtain ⟨hbracket, hne, hcolon, hwhole⟩ := hplain name hname
  obtain ⟨port, hauthority, hport⟩ : ∃ port, authorityOf rest = name ++ port ∧
      (port = [] ∨ ∃ digits, port = ':' :: digits) := by
    refine ⟨after.takeWhile fun c => c ≠ '?' ∧ c ≠ '#', ?_, ?_⟩
    · rw [authorityOf_eq_takeWhile, htext, List.takeWhile_append, hwhole, if_pos rfl]
    · cases after with
      | nil => exact .inl rfl
      | cons c after =>
          rcases hafter c rfl with rfl | rfl | rfl
          · exact .inr ⟨_, List.takeWhile_cons_of_pos (by decide)⟩
          · exact .inl (List.takeWhile_cons_of_neg (by decide))
          · exact .inl (List.takeWhile_cons_of_neg (by decide))
  have hhostPort : hostPort rest = name ++ port := by
    rw [hostPort, afterLast_eq_self hat, hauthority]
  rw [hostOf_eq_name (by rwa [hhostPort, List.head?_append_of_ne_nil _ hne]), hhostPort]
  rcases hport with rfl | ⟨digits, rfl⟩
  · rw [List.append_nil, upTo_eq_self hcolon]
  · rw [upTo_append hcolon]

/-- A URL that looks trusted and is not misread is trusted. -/
theorem trusted_of_not_misread (hclear : ¬ Misread tailscale rest)
    (h : LooksTrusted tailscale (upTo '/' rest)) : Trusted tailscale (hostOf rest) := by
  rcases h with ⟨name, hloopback, hprefix⟩ | ⟨host, hshown, htrusted⟩
  · obtain ⟨after, htext⟩ := hprefix
    have hhost : hostOf rest = .name name := by
      refine hostOf_loopback hloopback htext.symm ?_ ?_
      · intro c hc
        obtain ⟨after, rfl⟩ := List.head?_eq_some_iff.1 hc
        by_contra hother
        rw [not_or, not_or] at hother
        exact hclear (.longer hloopback htext.symm hother.1 hother.2.1 hother.2.2)
      · exact fun hat => hclear (.userinfo hloopback ⟨after, htext⟩ hat)
    rw [hhost]
    exact .inl hloopback
  · have hplain : ¬ Tangled rest := fun htangled => hclear (.shown hshown htrusted htangled)
    -- The authority ends at the slash, and the host in it is a name.
    have hauthority : authorityOf rest = upTo '/' rest := by
      refine authorityOf_eq_upTo fun c hc => ⟨fun heq => ?_, fun heq => ?_⟩
      · exact hplain (.delimiter (.inl heq) hc)
      · exact hplain (.delimiter (.inr heq) hc)
    have hname : hostOf rest = .name (upTo ':' (hostPort rest)) :=
      hostOf_eq_name fun hhead => hplain (.literal hhead)
    rw [hname]
    refine .inr ?_
    generalize htext : upTo '/' rest = text at hshown hauthority
    have hhostPort : hostPort rest = afterLast '@' text := by rw [hostPort, hauthority]
    cases hshown with
    | whole hcolon =>
        -- The policy has kept the userinfo, which neither changes the end nor belongs to an address.
        rw [hhostPort, upTo_eq_self hcolon]
        rcases htrusted with hsuffix | ⟨htailscale, hsuffix | haddress⟩
        · exact .inl (suffix_afterLast (by decide) hsuffix)
        · exact .inr ⟨htailscale, .inl (suffix_afterLast (by decide) hsuffix)⟩
        · rw [afterLast_eq_self (not_mem_at_of_isTrustedAddress haddress)]
          exact .inr ⟨htailscale, .inr haddress⟩
    | beforePort hlast hport =>
        -- The last colon is the only one.
        have hcolon : ':' ∉ host := by
          intro hmem
          apply hplain
          apply Tangled.colons
          rw [hhostPort, hlast, List.count_append, List.count_cons_self]
          have hpos := List.count_pos_iff.mpr hmem
          omega
        rw [hhostPort, hlast, upTo_append hcolon]
        exact htrusted

/-- What is misread is allowed. -/
theorem Misread.looksTrusted (h : Misread tailscale rest) : LooksTrusted tailscale (upTo '/' rest) := by
  cases h with
  | longer hloopback htext _ _ _ => exact .inl ⟨_, hloopback, _, htext.symm⟩
  | userinfo hloopback hprefix _ => exact .inl ⟨_, hloopback, hprefix⟩
  | shown hshown htrusted _ => exact .inr ⟨_, hshown, htrusted⟩

end Readings

/-- Plain HTTP stays in the trusted network unless the URL is misread, and leaves it by every misread URL
with another host. -/
theorem plainHttpStays_unless_misread (debug : String → String) (tailscale : Bool) (url : String) :
    ((∀ rest, trimBoth isWhitespace url.toList = "http://".toList ++ rest → ¬ Misread tailscale rest) →
      PlainHttpStays debug tailscale url) ∧
    ∀ rest, trimBoth isWhitespace url.toList = "http://".toList ++ rest → Misread tailscale rest →
      ¬ Trusted tailscale (hostOf rest) → ¬ PlainHttpStays debug tailscale url := by
  constructor
  · intro hclear hok hhttps
    rcases (validateForgeUrl_eq_ok_iff hhttps).mp hok with ⟨rest, htrimmed, hlooks⟩
    exact ⟨rest, htrimmed, trusted_of_not_misread (hclear rest htrimmed) hlooks⟩
  · intro rest htrimmed hmisread huntrusted hstays
    have hhttps : ¬ "https://".toList <+: trimBoth isWhitespace url.toList := by
      rw [htrimmed]
      exact not_https_prefix rest
    have hok : validateForgeUrl debug url tailscale = .ok () :=
      (validateForgeUrl_eq_ok_iff hhttps).mpr ⟨rest, htrimmed, hmisread.looksTrusted⟩
    rcases hstays hok hhttps with ⟨rest', htrimmed', htrusted⟩
    have heq : rest = rest' := List.append_cancel_left (htrimmed.symm.trans htrimmed')
    exact huntrusted (heq ▸ htrusted)

/-- The quoting of a text that has nothing to escape. -/
def quoted (s : String) : String :=
  "\"" ++ s ++ "\""

/-- A Service DNS name with userinfo and a port is allowed and read right. -/
theorem plainHttpStays_unless_misread_service :
    validateForgeUrl quoted "http://ci@forge.svc.cluster.local:8080/api" false = .ok () ∧
      PlainHttpStays quoted false "http://ci@forge.svc.cluster.local:8080/api" := by
  refine ⟨by decide +kernel, (plainHttpStays_unless_misread quoted false _).1 ?_⟩
  intro rest htrimmed hmisread
  have hrest : rest = "ci@forge.svc.cluster.local:8080/api".toList :=
    List.append_cancel_left (htrimmed.symm.trans
      (by decide +kernel : _ = "http://".toList ++ "ci@forge.svc.cluster.local:8080/api".toList))
  have htext : upTo '/' rest = "ci@forge.svc.cluster.local:8080".toList := by
    rw [hrest]
    decide +kernel
  have hport : hostPort rest = "forge.svc.cluster.local:8080".toList := by
    rw [hrest]
    decide +kernel
  have hnone : ∀ name ∈ loopbackNames, ¬ name <+: "ci@forge.svc.cluster.local:8080".toList := by
    decide +kernel
  rw [← htext] at hnone
  cases hmisread with
  | longer hloopback hlonger _ _ _ => exact absurd ⟨_, hlonger.symm⟩ (hnone _ hloopback)
  | userinfo hloopback hprefix _ => exact absurd hprefix (hnone _ hloopback)
  | shown _ _ htangled =>
      cases htangled with
      | delimiter hc hmem =>
          rw [htext] at hmem
          rcases hc with rfl | rfl
          · exact absurd hmem (by decide +kernel)
          · exact absurd hmem (by decide +kernel)
      | colons hcount =>
          rw [hport] at hcount
          exact absurd hcount (by decide +kernel)
      | literal hhead =>
          rw [hport] at hhead
          exact absurd hhead (by decide +kernel)

/-- A public name that begins like a loopback name is allowed. -/
theorem not_plainHttpStays_lookalike : ¬ PlainHttpStays quoted false "http://localhost.evil.com" := by
  intro h
  rcases h rfl (by decide) with ⟨rest, htrimmed, htrusted⟩
  have hrest : rest = "localhost.evil.com".toList :=
    List.append_cancel_left (htrimmed.symm.trans
      (by decide : _ = "http://".toList ++ "localhost.evil.com".toList))
  subst hrest
  rcases htrusted with hloopback | hsuffix | ⟨htailscale, -⟩
  · exact absurd hloopback (by decide)
  · exact absurd hsuffix (by decide)
  · cases htailscale

end Cli
end Aivcs
