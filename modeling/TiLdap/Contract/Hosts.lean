import TiLdap.OpenLdap.HostCheck
import TiLdap.Ios.HostNames

namespace TiLdap

open Framework OpenLdap Ios

/-- A host is taken for the one it should be exactly if it sent no certificate or one that was not
verified, or if an alternative name or the last common name of it stands for the host. -/
theorem host_accepted_iff (inetPton inetAton : List UInt8 → Option (List UInt8))
    (hostname nameIn : Option (List UInt8)) (s : TlsSession) :
    tlsoSessionChkhost inetPton inetAton hostname nameIn s=some (0,none) ↔
      ∃name,checkedName hostname nameIn=some name ∧
        (s.verifyResult=0 → ∀x,s.peerCertificate=some x →
          (∃g∈x.altNames.getD [],Names (hostType inetPton inetAton name) name g) ∨
            ∃cn,x.commonNames.getLast?=some cn ∧ Covers cn name) := by
  rw [tlsoSessionChkhost,Option.map_eq_some_iff]
  apply exists_congr
  intro name
  exact and_congr_right fun _ => checkCertificate_passes_iff

/-- An asterisk stands for one label: a certificate that was verified and whose names all have more
or fewer labels than the host is refused. -/
theorem other_labels_refused (inetPton inetAton : List UInt8 → Option (List UInt8))
    (hostname nameIn : Option (List UInt8)) (x : X509) (name : List UInt8)
    (hname : checkedName hostname nameIn=some name)
    (hdns : hostType inetPton inetAton name=.dns)
    (halt : ∀sn,GeneralName.dns sn∈x.altNames.getD [] → sn.count dot≠name.count dot)
    (hcn : ∀cn,x.commonNames.getLast?=some cn → cn.count dot≠name.count dot) :
    ∃text,tlsoSessionChkhost inetPton inetAton hostname nameIn ⟨0,some x⟩=
      some (ldapConnectError,some text) := by
  have hrefused : checkCertificate inetPton inetAton name (some x)≠(0,none) := by
    intro h0
    rcases checkCertificate_accepts_iff.mp h0 x rfl with ⟨g,hg,hn⟩|⟨cn,hlast,hc⟩
    · rw [hdns] at hn
      cases hn with
      | dns hne hc => exact halt _ hg hc.count.symm
    · exact hcn cn hlast hc.count.symm
  obtain ⟨text,htext⟩ := checkCertificate_cases.resolve_left hrefused
  have hcert : tlsoGetCert ⟨0,some x⟩=some x := rfl
  exact ⟨text,by rw [tlsoSessionChkhost,hname,Option.map_some,hcert,htext]⟩

theorem other_labels_refused_wildcard :
    ∃text,tlsoSessionChkhost (fun _ => none) (fun _ => none) none (some (utf8 "a.b.example.com"))
      ⟨0,some ⟨some [.dns (utf8 "*.example.com")],[utf8 "*.com"]⟩⟩=
      some (ldapConnectError,some text) :=
  other_labels_refused _ _ _ _ _ (utf8 "a.b.example.com") (by rfl) (by rfl)
    (by
      intro sn hsn
      have he : sn=utf8 "*.example.com" := by simpa using hsn
      rw [he]
      decide)
    (by
      intro cn hcn
      have he : utf8 "*.com"=cn := by simpa using hcn
      rw [← he]
      decide)

end TiLdap
