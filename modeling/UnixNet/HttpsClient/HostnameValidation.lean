import UnixNet.HttpsClient.Hostcheck

/-!
# Which certificates are accepted for a host

`openssl_hostname_validation.c` looks for the name of a host in the certificate of the server: among
the alternative names, or in the common name if there are no alternative names. `https-client.c`
accepts a certificate in which the name was found, if the result of `X509_verify_cert` for its chain
is not 0. The names in a certificate are strings with a length, which may have a NUL inside; behind
each there is a NUL that does not count. `cert_verify_callback_iff` says which certificates are
accepted.
-/

namespace UnixNet.HttpsClient

open NetLib

/-- `HostnameValidationResult` -/
inductive HostnameValidationResult where
  | MatchFound
  | MatchNotFound
  | NoSANPresent
  | MalformedCertificate
  | Error
  deriving DecidableEq

/-- A name of the Subject Alternative Name extension: a DNS name, or one of another type. -/
inductive GeneralName where
  | dnsName (name : Bytes)
  | other

/-- What is read of a certificate: the alternative names, if the extension is there, and the first
common name of the subject. A place, an entry and a string are three pointers or numbers that may be
missing. -/
structure X509 where
  sanNames : Option (List GeneralName)
  commonName : Option (Option (Option Bytes))

/-- `ASN1_STRING_length(name) != strlen(name)`, where a NUL follows the string. -/
def hasEmbeddedNul (name : Bytes) : Bool :=
  name.length != (cstr (name ++ [0])).length

/-- `matches_common_name` -/
def matchesCommonName (hostname : Bytes) (cert : X509) : HostnameValidationResult :=
  match cert.commonName with
  | none => .Error
  | some none => .Error
  | some (some none) => .Error
  | some (some (some name)) =>
      if hasEmbeddedNul name then .MalformedCertificate
      else if certHostcheck (some (cstr (name ++ [0]))) (some hostname) then .MatchFound
      else .MatchNotFound

/-- The loop of `matches_subject_alternative_name`. -/
def checkNames (hostname : Bytes) : List GeneralName → HostnameValidationResult
  | [] => .MatchNotFound
  | .other :: names => checkNames hostname names
  | .dnsName name :: names =>
      if hasEmbeddedNul name then .MalformedCertificate
      else if certHostcheck (some (cstr (name ++ [0]))) (some hostname) then .MatchFound
      else checkNames hostname names

/-- `matches_subject_alternative_name` -/
def matchesSubjectAlternativeName (hostname : Bytes) (cert : X509) : HostnameValidationResult :=
  match cert.sanNames with
  | none => .NoSANPresent
  | some names => checkNames hostname names

/-- `validate_hostname` -/
def validateHostname (hostname : Option Bytes) (cert : Option X509) : HostnameValidationResult :=
  match hostname, cert with
  | some hostname, some cert =>
      if matchesSubjectAlternativeName hostname cert = .NoSANPresent then
        matchesCommonName hostname cert
      else matchesSubjectAlternativeName hostname cert
  | _, _ => .Error

/-- `cert_verify_callback`. `okSoFar` is the result of `X509_verify_cert`: 1 for a chain that is
verified, 0 for one that is not, and a negative number after some errors. -/
def certVerifyCallback (ignoreCert : Bool) (okSoFar : Int) (host : Option Bytes)
    (serverCert : Option X509) : Bool :=
  if ignoreCert then true
  else if okSoFar ≠ 0 then validateHostname host serverCert == .MatchFound
  else false

/-! ## The names of a certificate -/

/-- The host has this name, or the name has a star and stands for the host. -/
def NameMatches (name hostname : Bytes) : Prop :=
  0 ∉ name ∧ name ≠ [] ∧ (name.map rawToupper = hostname.map rawToupper ∨
    StarMatch 42 46 (ascii "XN--") (name.map rawToupper) (hostname.map rawToupper))

/-- A DNS name of the list matches, and none before it has a NUL. -/
def NameListed (hostname : Bytes) (names : List GeneralName) : Prop :=
  ∃ before name after, names = before ++ .dnsName name :: after ∧ NameMatches name hostname ∧
    ∀ other, .dnsName other ∈ before → 0 ∉ other

/-- The certificate is for the host: if it has alternative names, one of them matches, and no DNS
name before it has a NUL; otherwise its common name matches. -/
def IsFor (cert : X509) (hostname : Bytes) : Prop :=
  match cert.sanNames with
  | some names => NameListed hostname names
  | none => ∃ name, cert.commonName = some (some (some name)) ∧ NameMatches name hostname

variable {hostname name : Bytes} {cert : X509} {names : List GeneralName}

/-- The test finds a NUL inside a name. -/
theorem has_embedded_nul_iff : hasEmbeddedNul name = true ↔ 0 ∈ name := by
  rw [hasEmbeddedNul, bne_iff_ne]
  by_cases h : 0 ∈ name
  · refine iff_of_true (fun hlen => ?_) h
    -- a C string in a name is no longer than the name, and has no NUL
    have hprefix : cstr (name ++ [0]) <+: name ++ [0] := List.takeWhile_prefix _
    have heq : cstr (name ++ [0]) = name := by
      have htake := List.prefix_iff_eq_take.mp hprefix
      rwa [← hlen, List.take_left] at htake
    exact zero_not_mem_cstr (name ++ [0]) (heq.symm ▸ h)
  · exact iff_of_false (fun hne => hne (by rw [cstr_append h])) h

/-- What is done with a name that has no NUL inside. -/
theorem name_matches_iff (hh : 0 ∉ hostname) :
    hasEmbeddedNul name = false ∧ certHostcheck (some (cstr (name ++ [0]))) (some hostname) = true ↔
      NameMatches name hostname := by
  rw [← Bool.not_eq_true, has_embedded_nul_iff, NameMatches]
  refine and_congr_right fun hnul => ?_
  rw [cstr_append hnul, cert_hostcheck_eq_true hnul hh, name_match_iff hnul hh]

/-- The first name of a list matches, or it does not keep a later one from matching. -/
theorem name_listed_cons {first : GeneralName} :
    NameListed hostname (first :: names) ↔
      (∃ name, first = .dnsName name ∧ NameMatches name hostname) ∨
        (∀ name, first = .dnsName name → 0 ∉ name) ∧ NameListed hostname names := by
  constructor
  · rintro ⟨before, name, after, heq, hmatch, hbefore⟩
    cases before with
    | nil => exact .inl ⟨name, (List.cons.inj heq).1, hmatch⟩
    | cons skipped before =>
        obtain ⟨rfl, hrest⟩ := List.cons.inj heq
        exact .inr ⟨fun other hother => hbefore other (hother ▸ List.mem_cons_self),
          before, name, after, hrest, hmatch,
          fun other hother => hbefore other (List.mem_cons_of_mem _ hother)⟩
  · rintro (⟨name, rfl, hmatch⟩ | ⟨hfirst, before, name, after, rfl, hmatch, hbefore⟩)
    · exact ⟨[], name, names, rfl, hmatch, fun _ h => absurd h List.not_mem_nil⟩
    · refine ⟨first :: before, name, after, rfl, hmatch, fun other hother => ?_⟩
      rcases List.mem_cons.mp hother with heq | hmem
      · exact hfirst other heq.symm
      · exact hbefore other hmem

/-- The loop over the alternative names finds a name if one is listed. -/
theorem check_names_iff (hh : 0 ∉ hostname) (names : List GeneralName) :
    checkNames hostname names = .MatchFound ↔ NameListed hostname names := by
  induction names with
  | nil =>
      refine iff_of_false nofun fun ⟨before, _, _, heq, _⟩ => ?_
      exact absurd heq.symm (by simp)
  | cons first names ih =>
      rw [name_listed_cons]
      cases first with
      | other =>
          rw [checkNames]
          simpa using ih
      | dnsName name =>
          have hmatches : hasEmbeddedNul name = false ∧ _ ↔ NameMatches name hostname :=
            name_matches_iff hh
          rw [checkNames]
          cases hnul : hasEmbeddedNul name with
          | true =>
              have hmem : 0 ∈ name := has_embedded_nul_iff.mp hnul
              rw [if_pos rfl]
              refine iff_of_false nofun ?_
              rintro (⟨_, heq, hmatch⟩ | ⟨hfirst, _⟩)
              · cases heq
                exact hmatch.1 hmem
              · exact hfirst name rfl hmem
          | false =>
              have hfree : 0 ∉ name := by
                rw [← has_embedded_nul_iff, hnul]
                exact Bool.false_ne_true
              rw [hnul, and_iff_right rfl] at hmatches
              rw [if_neg Bool.false_ne_true]
              split
              · next hfound =>
                  exact iff_of_true rfl (.inl ⟨name, rfl, hmatches.mp hfound⟩)
              · next hnot =>
                  rw [ih]
                  refine ⟨fun h => .inr ⟨fun _ heq => by cases heq; exact hfree, h⟩, ?_⟩
                  rintro (⟨_, heq, hmatch⟩ | ⟨_, h⟩)
                  · cases heq
                    exact absurd (hmatches.mpr hmatch) hnot
                  · exact h

/-- The loop never says that there are no alternative names. -/
theorem check_names_ne (hostname : Bytes) (names : List GeneralName) :
    checkNames hostname names ≠ .NoSANPresent := by
  induction names with
  | nil => exact nofun
  | cons first names ih =>
      cases first with
      | other => exact ih
      | dnsName name =>
          rw [checkNames]
          split
          · exact nofun
          · split
            · exact nofun
            · exact ih

/-- The common name matches. -/
theorem matches_common_name_iff (hh : 0 ∉ hostname) (cert : X509) :
    matchesCommonName hostname cert = .MatchFound ↔
      ∃ name, cert.commonName = some (some (some name)) ∧ NameMatches name hostname := by
  rw [matchesCommonName]
  split
  · next hnone => exact iff_of_false nofun fun ⟨_, heq, _⟩ => nomatch hnone.symm.trans heq
  · next hnone => exact iff_of_false nofun fun ⟨_, heq, _⟩ => nomatch hnone.symm.trans heq
  · next hnone => exact iff_of_false nofun fun ⟨_, heq, _⟩ => nomatch hnone.symm.trans heq
  · next name hname =>
      simp only [hname, Option.some.injEq, exists_eq_left', ← name_matches_iff hh]
      cases hasEmbeddedNul name
      · simp
      · simp

/-- The name of a host is found in a certificate that is for the host, and in no other. -/
theorem validate_hostname_iff (hh : 0 ∉ hostname) (cert : X509) :
    validateHostname (some hostname) (some cert) = .MatchFound ↔ IsFor cert hostname := by
  rw [validateHostname, IsFor, matchesSubjectAlternativeName]
  cases hsan : cert.sanNames with
  | none =>
      rw [if_pos rfl]
      exact matches_common_name_iff hh cert
  | some names =>
      rw [if_neg (check_names_ne hostname names)]
      exact check_names_iff hh names

/-- The name of the host counts if certificates are not ignored and the chain did not fail with
0. -/
theorem cert_verify_callback_eq_true (ignoreCert : Bool) (okSoFar : Int) (host : Option Bytes)
    (serverCert : Option X509) : certVerifyCallback ignoreCert okSoFar host serverCert = true ↔
      ignoreCert = true ∨ okSoFar ≠ 0 ∧ validateHostname host serverCert = .MatchFound := by
  cases ignoreCert
  · by_cases hok : okSoFar = 0
    · simp [certVerifyCallback, hok]
    · simp [certVerifyCallback, hok]
  · simp [certVerifyCallback]

/-- A certificate whose alternative name has a star. -/
def fooCert : X509 :=
  ⟨some [.other, .dnsName (ascii "*.host.com")], none⟩

/-- The DNS name of an alternative name. -/
def GeneralName.dns : GeneralName → Option Bytes
  | .dnsName name => some name
  | .other => none

/-- The names of a certificate that are looked at. -/
def X509.checkedNames (cert : X509) : List Bytes :=
  match cert.sanNames with
  | some names => names.filterMap GeneralName.dns
  | none =>
      match cert.commonName with
      | some (some (some name)) => [name]
      | _ => []

/-- A certificate that is for a host has a name that matches. -/
theorem IsFor.exists_name (h : IsFor cert hostname) :
    ∃ name ∈ cert.checkedNames, NameMatches name hostname := by
  unfold IsFor at h
  unfold X509.checkedNames
  split at h
  · next names hsan =>
      obtain ⟨before, name, after, rfl, hmatch, _⟩ := h
      exact ⟨name, List.mem_filterMap.mpr ⟨.dnsName name, by simp, rfl⟩, hmatch⟩
  · next hsan =>
      obtain ⟨name, hname, hmatch⟩ := h
      rw [hname]
      exact ⟨name, List.mem_singleton_self name, hmatch⟩

/-- A star stands for a part of one label below a domain. A certificate that is not ignored is
accepted for a host only if one of its names has as many labels as the host, and either is the name
of the host or is in the same domain, which has at least two labels. -/
theorem accepted_same_domain {okSoFar : Int} (hh : 0 ∉ hostname)
    (h : certVerifyCallback false okSoFar (some hostname) (some cert) = true) :
    ∃ name ∈ cert.checkedNames, 0 ∉ name ∧
      (name.map rawToupper).count 46 = (hostname.map rawToupper).count 46 ∧
      (name.map rawToupper = hostname.map rawToupper ∨
        ∃ first label domain, 46 ∉ first ∧ 46 ∉ label ∧ 46 ∈ domain ∧
          name.map rawToupper = first ++ 46 :: domain ∧
          hostname.map rawToupper = label ++ 46 :: domain) := by
  rw [cert_verify_callback_eq_true, validate_hostname_iff hh] at h
  have hfor := (h.resolve_left nofun).2
  obtain ⟨name, hmem, hnul, _, hsame | hstar⟩ := hfor.exists_name
  · exact ⟨name, hmem, hnul, by rw [hsame], .inl hsame⟩
  · obtain ⟨first, label, domain, hfirst, hlabel, hname, hhost, htwo⟩ := hstar.domain
    exact ⟨name, hmem, hnul, (hstar.count_dot (by decide)).symm,
      .inr ⟨first, label, domain, hfirst, hlabel, htwo, hname, hhost⟩⟩

/-- The star of the certificate stands for one label. -/
theorem accepted_same_domain_foo :
    ∃ name ∈ fooCert.checkedNames, 0 ∉ name ∧
      (name.map rawToupper).count 46 = ((ascii "foo.host.com").map rawToupper).count 46 ∧
      (name.map rawToupper = (ascii "foo.host.com").map rawToupper ∨
        ∃ first label domain, 46 ∉ first ∧ 46 ∉ label ∧ 46 ∈ domain ∧
          name.map rawToupper = first ++ 46 :: domain ∧
          (ascii "foo.host.com").map rawToupper = label ++ 46 :: domain) := by
  have haccepted : certVerifyCallback false 1 (some (ascii "foo.host.com"))
      (some fooCert) = true := by decide
  exact accepted_same_domain (by decide) haccepted

end UnixNet.HttpsClient
