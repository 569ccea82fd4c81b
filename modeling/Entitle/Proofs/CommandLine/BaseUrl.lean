import Entitle.CommandLine.Run
import Entitle.Proofs.Config.Validation
import Mathlib.Data.List.DropRight
import Mathlib.Data.String.Basic

/-!
# The URLs of requests to a checked base URL

The URL of a request is the base URL without the slashes at its end, joined to the path (`request_url`). A base URL is
checked as it is written, and its slashes are taken away later. So its scheme is that of every URL, unless nothing but
slashes stands behind it: then only the name of the scheme is left, and a URL has a scheme only if its path brings two
slashes (`scheme_lost`).
-/

namespace Entitle

/-- What the URL of a request has to start with. -/
inductive IsScheme : String → Prop where
  | http : IsScheme "http://"
  | https : IsScheme "https://"

/-- The URL starts with a scheme. -/
def HasScheme (url : String) : Prop :=
  ∃ scheme, IsScheme scheme ∧ scheme.toList <+: url.toList

theorem hasScheme_iff {url : String} :
    HasScheme url ↔ "http://".toList <+: url.toList ∨ "https://".toList <+: url.toList := by
  constructor
  · rintro ⟨_, h | h, hprefix⟩
    · exact .inl hprefix
    · exact .inr hprefix
  · rintro (h | h)
    · exact ⟨_, .http, h⟩
    · exact ⟨_, .https, h⟩

theorem IsScheme.hasScheme_append {scheme : String} (h : IsScheme scheme) (rest : String) :
    HasScheme (scheme ++ rest) :=
  ⟨scheme, h, by rw [String.toList_append]; exact List.prefix_append _ _⟩

theorem HasScheme.exists_eq_append {url : String} (h : HasScheme url) :
    ∃ scheme rest, IsScheme scheme ∧ url = scheme ++ rest := by
  obtain ⟨scheme, hscheme, rest, hrest⟩ := h
  refine ⟨scheme, String.ofList rest, hscheme, String.toList_inj.1 ?_⟩
  rw [String.toList_append, String.toList_ofList, hrest]

/-- A text without the slashes at its end. -/
structure IsTrimmed (whole trimmed : String) : Prop where
  slashes_behind : ∃ n, whole.toList = trimmed.toList ++ List.replicate n '/'
  no_slash : trimmed.toList.getLast? ≠ some '/'

/-- Two texts joined by a slash, by the second one's own if it starts with one. -/
def IsJoined (front back joined : String) : Prop :=
  if "/".toList <+: back.toList then joined = front ++ back else joined = front ++ "/" ++ back

theorem IsJoined.exists_eq_append {front back joined : String} (h : IsJoined front back joined) :
    ∃ rest, joined = front ++ rest := by
  unfold IsJoined at h
  split at h
  · exact ⟨back, h⟩
  · exact ⟨"/" ++ back, h.trans String.append_assoc⟩

namespace Server

theorem toList_trimSlashes (url : String) : (trimSlashes url).toList = url.toList.rdropWhile (· = '/') :=
  String.toList_ofList

theorem trimSlashes_isTrimmed (url : String) : IsTrimmed url (trimSlashes url) where
  slashes_behind := by
    have hslashes : ∀ c ∈ url.toList.rtakeWhile (· = '/'), c = '/' := fun c hc => by
      simpa using List.mem_rtakeWhile_imp hc
    refine ⟨(url.toList.rtakeWhile (· = '/')).length, ?_⟩
    rw [toList_trimSlashes, ← List.eq_replicate_of_mem hslashes, List.rdropWhile_append_rtakeWhile]
  no_slash := by
    rw [toList_trimSlashes]
    by_cases hnil : url.toList.rdropWhile (· = '/') = []
    · simp [hnil]
    · have hlast := List.rdropWhile_last_not _ _ hnil
      simpa [List.getLast?_eq_some_getLast hnil] using hlast

theorem toList_trimSlashes_append (front rest : String) :
    (trimSlashes (front ++ rest)).toList =
      if (rest.toList.reverse.dropWhile (· = '/')).isEmpty then (trimSlashes front).toList
      else front.toList ++ (trimSlashes rest).toList := by
  simp only [toList_trimSlashes, List.rdropWhile, String.toList_append, List.reverse_append, List.dropWhile_append]
  split <;> simp

theorem trimSlashes_append_of_forall (front : String) {rest : String} (h : ∀ c ∈ rest.toList, c = '/') :
    trimSlashes (front ++ rest) = trimSlashes front := by
  apply String.toList_inj.1
  rw [toList_trimSlashes_append, if_pos]
  simpa [List.isEmpty_iff] using h

theorem trimSlashes_append_of_exists (front : String) {rest : String} (h : ∃ c ∈ rest.toList, c ≠ '/') :
    trimSlashes (front ++ rest) = front ++ trimSlashes rest := by
  apply String.toList_inj.1
  rw [toList_trimSlashes_append, if_neg, String.toList_append]
  simpa [List.isEmpty_iff] using h

theorem url_isJoined (s : Server) (path : String) : IsJoined s.baseUrl path (s.url path) := by
  unfold IsJoined url
  simp only [List.isPrefixOf_iff_prefix]
  split <;> rfl

/-- The name of a scheme alone takes its slashes from the path. -/
theorem hasScheme_of_trimmed_scheme {scheme path url : String} (hscheme : IsScheme scheme)
    (h : IsJoined (trimSlashes scheme) path url) : HasScheme url ↔ "//".toList <+: path.toList := by
  have hname : trimSlashes scheme = "http:" ∨ trimSlashes scheme = "https:" := by
    cases hscheme with
    | http => exact .inl (by decide)
    | https => exact .inr (by decide)
  have hfirst : "//".toList <+: path.toList → "/".toList <+: path.toList := List.IsPrefix.trans (by decide)
  rw [hasScheme_iff]
  unfold IsJoined at h
  split at h
  · rcases hname with hname | hname <;> simp [h, hname]
  · next hnone =>
    -- One slash stands between the two, and no other behind it.
    rcases hname with hname | hname <;> simpa [h, hname] using iff_of_false hnone (mt hfirst hnone)

end Server

/-! ### Requests -/

namespace CommandLine

open Server

theorem hasScheme_of_validate {c : Config} (h : Config.validate c = .ok ()) : HasScheme c.api.baseUrl := by
  have hhttp := (Config.validate_eq_ok.1 h).scheme
  rwa [Config.isHttp, Bool.or_eq_true, List.isPrefixOf_iff_prefix, List.isPrefixOf_iff_prefix, ← hasScheme_iff] at hhttp

theorem baseUrl_of_serverOf {c : Config} {s : Server} (h : serverOf c = .ok s) :
    s.baseUrl = trimSlashes c.api.baseUrl := by
  unfold serverOf Server.ofBase? at h
  split at h
  · next hsome =>
    split at hsome
    · cases hsome
      cases h
      rfl
    · cases hsome
  · cases h

/-- The URL of a request to a checked base URL is the base URL without the slashes at its end, joined to the path. It
starts with a scheme if and only if there is more than slashes behind the scheme of the base URL, or the path starts
with two slashes. -/
theorem request_url {c : Config} {s : Server} (hvalid : Config.validate c = .ok ()) (hs : serverOf c = .ok s) :
    IsTrimmed c.api.baseUrl s.baseUrl ∧ ∃ scheme rest, IsScheme scheme ∧ c.api.baseUrl = scheme ++ rest ∧
      ∀ path, IsJoined s.baseUrl path (s.url path) ∧
        (HasScheme (s.url path) ↔ (∃ char ∈ rest.toList, char ≠ '/') ∨ "//".toList <+: path.toList) := by
  have hbase : s.baseUrl = trimSlashes c.api.baseUrl := baseUrl_of_serverOf hs
  obtain ⟨scheme, rest, hscheme, happend⟩ := (hasScheme_of_validate hvalid).exists_eq_append
  refine ⟨hbase ▸ trimSlashes_isTrimmed _, scheme, rest, hscheme, happend, fun path => ⟨s.url_isJoined path, ?_⟩⟩
  have hjoined := s.url_isJoined path
  rw [hbase, happend] at hjoined
  by_cases hsome : ∃ char ∈ rest.toList, char ≠ '/'
  · rw [trimSlashes_append_of_exists scheme hsome] at hjoined
    obtain ⟨behind, hurl⟩ := hjoined.exists_eq_append
    rw [hurl, String.append_assoc]
    exact iff_of_true (hscheme.hasScheme_append _) (.inl hsome)
  · rw [trimSlashes_append_of_forall scheme (by simpa using hsome)] at hjoined
    rw [hasScheme_of_trimmed_scheme hscheme hjoined, or_iff_right hsome]

theorem request_url_slashes :
    let c : Config := { api.baseUrl := "https://api.example.com/v1//" }
    ∃ s, Config.validate c = .ok () ∧ serverOf c = .ok s ∧
      s.url "receipts" = "https://api.example.com/v1/receipts" ∧ HasScheme (s.url "receipts") := by
  intro c
  have hvalid : Config.validate c = .ok () := by decide
  have hs : serverOf c = .ok ⟨"https://api.example.com/v1", none, "purchases-backend/0.1.0"⟩ := by decide
  obtain ⟨-, scheme, rest, hscheme, happend, hurl⟩ := request_url hvalid hs
  have hrest : 'a' ∈ rest.toList := by
    cases hscheme with
    | http => simpa [c] using congrArg String.toList happend
    | https =>
      have hsplit : c.api.baseUrl = "https://" ++ "api.example.com/v1//" := by decide
      rw [← (String.append_right_inj _).1 (hsplit.symm.trans happend)]
      decide
  exact ⟨_, hvalid, hs, by decide, (hurl "receipts").2.2 (.inl ⟨_, hrest, by decide⟩)⟩

/-- A base URL of a scheme and nothing else is accepted, and what follows is sent to the host that the path names. -/
theorem scheme_lost :
    let c : Config := { api.baseUrl := "http://" }
    let s : Server := ⟨"http:", none, "purchases-backend/0.1.0"⟩
    Config.validate c = .ok () ∧ serverOf c = .ok s ∧
      s.url "/subscribers/anna/offerings" = "http:/subscribers/anna/offerings" ∧
      ¬ HasScheme (s.url "/subscribers/anna/offerings") ∧
      Url.ofText? (s.url "/subscribers/anna/offerings") = some ⟨false, "subscribers", 80, "/anna/offerings"⟩ := by
  simp only [hasScheme_iff]
  decide +kernel

end CommandLine

end Entitle
