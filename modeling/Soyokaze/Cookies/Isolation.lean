import Soyokaze.Cookies
import Soyokaze.Lib.Course

/-!
# Whom a cookie is sent to

Cookies are learned from responses of any hosts, requests are asked about, and what has
expired is dropped, at any times.

* `CookieJar.Origin`: what a jar holds, some response had it keep;
* `CookieJar.isolated_of_matches`: where it goes, that response let it;
* `CookieJar.isolation_kept`: so no cookie goes elsewhere, where each that a host sets for all
  under a name is set for one of two labels, and by no address.
-/

namespace Soyokaze

namespace CookieJar

/-! ## Where a cookie may go -/

/-- Whether a name has two labels that are something. -/
def TwoLabels (name : Octets) : Prop := 2 ≤ (Str.split name 0x2e).countP (!·.isEmpty)

instance (name : Octets) : Decidable (TwoLabels name) :=
  inferInstanceAs (Decidable (2 ≤ (Str.split name 0x2e).countP (!·.isEmpty)))

/-- The host a URL names, in lower case. -/
def host (url : URL) : Octets := Str.toAsciiLowercase url.host

/-- What a cookie that a response for one URL set at a time has to do with a request for another. -/
structure Isolated (url : URL) (cookie : SetCookie) (at' : Instant) (target : URL) (now : Instant) : Prop where
  /-- The request is to the host itself, or both are under a domain the cookie was set for. -/
  domain : host target = host url ∨ ∃ domain, StoredCookie.asked cookie.domain = some domain ∧
    StoredCookie.Under (host url) domain ∧ StoredCookie.Under (host target) domain ∧ TwoLabels domain
  /-- A host of one label, or an address, keeps its cookies to itself. -/
  own : host target ≠ host url → TwoLabels (host url) ∧ IpAddr.parses (host url) = false
  secure : cookie.secure = true → target.secure = true
  maxAge : ∀ age, cookie.maxAge = some age → now.nanos < at'.nanos + age * 10 ^ 9
  path : ∃ rest, StoredCookie.requestPath target.target = cookie.path.getD (StoredCookie.defaultPath url.target) ++ rest ∧
    (rest = [] ∨ (cookie.path.getD (StoredCookie.defaultPath url.target)).getLast? = some 0x2f ∨ rest.head? = some 0x2f)

/-- Should the cookie be kept, and the host have set it for itself and all under it or for all under a name it is
    under, that name has two labels that are something, and the host is no address. -/
def Sound (url : URL) (cookie : SetCookie) : Prop := (∀ age, cookie.maxAge = some age → 0 < age) →
  ∀ domain, StoredCookie.asked cookie.domain = some domain →
    domain = host url ∨
      (IpAddr.parses (host url) = false ∧ 0x2e ∈ domain ∧ ∃ before, host url = before ++ 0x2e :: domain) →
    TwoLabels domain ∧ IpAddr.parses (host url) = false

/-! ## One cookie -/

variable {url target : URL} {cookie : SetCookie} {stored : StoredCookie} {at' now : Instant}

theorem TwoLabels.of_under {name domain : Octets} (hunder : StoredCookie.Under name domain) (h : TwoLabels domain) :
    TwoLabels name := by
  obtain rfl | ⟨before, rfl⟩ := hunder
  · exact h
  · rw [TwoLabels, Str.split_append, List.countP_append]
    exact h.trans (Nat.le_add_left _ _)

/-- A host keeps a cookie for itself, or for all under a name it asked for. -/
theorem scope_cases {host : Octets} {wanted : Option Octets} {domain : Octets} {hostOnly : Bool}
    (h : StoredCookie.scope host wanted = some (domain, hostOnly)) :
    (StoredCookie.asked wanted = none ∧ domain = host ∧ hostOnly = true) ∨
    (StoredCookie.asked wanted = some domain ∧ hostOnly = false ∧ (domain = host ∨
      (IpAddr.parses host = false ∧ 0x2e ∈ domain ∧ ∃ before, host = before ++ 0x2e :: domain))) := by
  rw [StoredCookie.scope] at h
  cases hasked : StoredCookie.asked wanted with
  | none =>
    rw [hasked] at h
    cases h
    exact .inl ⟨rfl, rfl, rfl⟩
  | some wanted =>
    rw [hasked] at h
    dsimp only at h
    split_ifs at h with hsame hbroad
    · cases h
      exact .inr ⟨rfl, rfl, .inl hsame⟩
    · cases h
      rw [Bool.not_eq_true, Bool.or_eq_false_iff, StoredCookie.tooBroad, Bool.not_eq_false', Bool.not_eq_false',
        List.contains_iff_mem, StoredCookie.domainMatches_iff] at hbroad
      obtain ⟨hdot, hmatches⟩ := hbroad
      obtain ⟨hname, -, hunder⟩ := hmatches.resolve_left (Ne.symm hsame)
      exact .inr ⟨rfl, rfl, .inr ⟨hname, hdot, hunder⟩⟩

/-- Where a cookie goes, the response that set it let it. -/
theorem isolated_of_matches (hresolve : resolve url cookie at' = some stored) (hlasts : ∀ age, cookie.maxAge = some age → 0 < age)
    (hsound : Sound url cookie) (hmatches : stored.matches target now = true) : Isolated url cookie at' target now := by
  obtain ⟨⟨domain, hostOnly⟩, hscope, rfl⟩ := Option.map_eq_some_iff.1 hresolve
  obtain ⟨hexpired, hsecure, hdomain, hpath⟩ := StoredCookie.matches_iff.1 hmatches
  have hreach : host target = host url ∨ ∃ domain, StoredCookie.asked cookie.domain = some domain ∧
      StoredCookie.Under (host url) domain ∧ StoredCookie.Under (host target) domain ∧ TwoLabels domain ∧
      IpAddr.parses (host url) = false := by
    obtain ⟨-, rfl, rfl⟩ | ⟨hasked, rfl, hset⟩ := scope_cases hscope
    · exact .inl hdomain
    · obtain ⟨hlabels, hname⟩ := hsound hlasts domain hasked hset
      refine .inr ⟨domain, hasked, ?_, ?_, hlabels, hname⟩
      · exact hset.imp Eq.symm fun hunder => hunder.2.2
      · exact (StoredCookie.domainMatches_iff.1 hdomain).imp_right fun hunder => hunder.2.2
  refine ⟨?_, fun hother => ?_, hsecure, fun age hage => ?_, StoredCookie.pathMatches_iff.1 hpath⟩
  · exact hreach.imp_right fun ⟨domain, hasked, hunder, hunder', hlabels, _⟩ => ⟨domain, hasked, hunder, hunder', hlabels⟩
  · obtain ⟨domain, -, hunder, -, hlabels, hname⟩ := hreach.resolve_left hother
    exact ⟨hlabels.of_under hunder, hname⟩
  · have hpos := hlasts age hage
    have hafter : at'.after (max age 0).toNat = at'.nanos + age * 10 ^ 9 := by
      rw [max_eq_left hpos.le, Instant.after, Int.toNat_of_nonneg hpos.le]
    rw [← hafter]
    cases hexpiry : at'.checkedAdd (max age 0).toNat with
    | none => exact Instant.lt_of_checkedAdd_eq_none hexpiry now
    | some expiry =>
      rw [← Instant.checkedAdd_eq_some hexpiry]
      have hlive : now < expiry := by simpa [StoredCookie.expired, hage, hexpiry] using hexpired
      exact hlive

/-! ## All that is kept -/

theorem dropOldest_subset (most : ℕ) (entries : List StoredCookie) : dropOldest most entries ⊆ entries := by
  induction entries with
  | nil => exact List.Subset.refl _
  | cons oldest rest ih =>
    rw [dropOldest]
    split_ifs
    · exact fun stored hstored => List.mem_cons_of_mem _ (ih hstored)
    · exact List.Subset.refl _

theorem evict_subset (jar : CookieJar) (domain : Octets) (entries : List StoredCookie) : jar.evict domain entries ⊆ entries := by
  rw [evict]
  split_ifs
  · exact List.Subset.trans (dropOldest_subset _ _) List.eraseP_subset
  · exact dropOldest_subset _ _

/-- A value has a jar keep one cookie at most, that does not expire at once. -/
theorem mem_learnOne {jar : CookieJar} {value : Octets} (h : stored ∈ (jar.learnOne url now value).entries) :
    stored ∈ jar.entries ∨ ∃ cookie, SetCookie.parse value = .ok cookie ∧ resolve url cookie now = some stored ∧
      ∀ age, cookie.maxAge = some age → 0 < age := by
  rw [learnOne] at h
  cases hparse : SetCookie.parse value with
  | error e =>
    rw [hparse] at h
    exact .inl h
  | ok cookie =>
    rw [hparse] at h
    dsimp only at h
    cases hresolve : resolve url cookie now with
    | none =>
      rw [hresolve] at h
      exact .inl h
    | some new =>
      rw [hresolve] at h
      dsimp only at h
      split_ifs at h with hdeletes hoff
      · exact .inl (List.mem_of_mem_filter h)
      · exact .inl (List.mem_of_mem_filter h)
      · obtain hold | hnew := List.mem_append.1 h
        · exact .inl (List.mem_of_mem_filter (List.mem_of_mem_filter (evict_subset jar new.domain _ hold)))
        · obtain rfl := List.mem_singleton.1 hnew
          refine .inr ⟨cookie, rfl, hresolve, fun age hage => ?_⟩
          rw [hage] at hdeletes
          simpa using hdeletes

theorem mem_learn {jar : CookieJar} {values : List Octets} (h : stored ∈ (jar.learn url values now).entries) :
    stored ∈ jar.entries ∨ ∃ value ∈ values, ∃ cookie, SetCookie.parse value = .ok cookie ∧
      resolve url cookie now = some stored ∧ ∀ age, cookie.maxAge = some age → 0 < age := by
  induction values generalizing jar with
  | nil => exact .inl h
  | cons value values ih =>
    obtain hjar | ⟨later, hlater, horigin⟩ := ih h
    · exact (mem_learnOne hjar).imp_right fun horigin => ⟨value, List.mem_cons_self, horigin⟩
    · exact .inr ⟨later, List.mem_cons_of_mem _ hlater, horigin⟩

/-! ## Runs -/

/-- What is done with a jar. -/
inductive Move
  | learn (url : URL) (values : List Octets) (now : Instant)
  | ask (url : URL) (now : Instant)
  | prune (now : Instant)

/-- What is done with a jar, and what a request is sent with. -/
def moves : Moves CookieJar Empty (Option Octets) Move where
  step
    | .learn url values now => fun jar => (.ok none, jar.learn url values now)
    | .ask url now => fun jar => (.ok (jar.cookie url now), jar)
    | .prune now => fun jar => (.ok none, jar.prune now)
  ends := fun _ => False
  left := fun _ => True

/-- Some response had the jar keep this cookie. -/
def Origin (h : List (Turn CookieJar Empty (Option Octets) Move)) (stored : StoredCookie) : Prop :=
  ∃ t ∈ h, ∃ url values at' value cookie, t.move = .learn url values at' ∧ value ∈ values ∧
    SetCookie.parse value = .ok cookie ∧ resolve url cookie at' = some stored ∧ ∀ age, cookie.maxAge = some age → 0 < age

/-- Whether the cookies that are set for all under a name are set for one of two labels, and by no address. -/
def SoundMove (move : Move) : Prop := ∀ url values now value cookie, move = .learn url values now → value ∈ values →
  SetCookie.parse value = .ok cookie → Sound url cookie

variable {jar : CookieJar} {h : List (Turn CookieJar Empty (Option Octets) Move)} {maxCookies : UInt32}
  {maxCookiesPerDomain : UInt16}

theorem origin_of_course (hcourse : Course moves (new maxCookies maxCookiesPerDomain) h jar) :
    ∀ stored ∈ jar.entries, Origin h stored := by
  induction hcourse with
  | begun => exact fun _ hstored => absurd hstored List.not_mem_nil
  | @turn h jar jar' move outcome _ _ htook ih =>
    have hearlier (stored : StoredCookie) (hstored : stored ∈ jar.entries) : Origin (⟨move, jar, outcome, jar'⟩ :: h) stored := by
      obtain ⟨t, ht, horigin⟩ := ih stored hstored
      exact ⟨t, List.mem_cons_of_mem _ ht, horigin⟩
    cases move with
    | learn url values now =>
      obtain ⟨rfl, rfl⟩ := Prod.mk.inj htook
      intro stored hstored
      obtain hold | ⟨value, hvalue, cookie, horigin⟩ := mem_learn hstored
      · exact hearlier stored hold
      · exact ⟨_, List.mem_cons_self, url, values, now, value, cookie, rfl, hvalue, horigin⟩
    | ask url now =>
      obtain ⟨rfl, rfl⟩ := Prod.mk.inj htook
      exact hearlier
    | prune now =>
      obtain ⟨rfl, rfl⟩ := Prod.mk.inj htook
      exact fun stored hstored => hearlier stored (List.mem_of_mem_filter hstored)

/-- Whatever is learned, each cookie that is sent was set by a response that let it go there, where each that is set for
    all under a name is set for one of two labels, and by no address. -/
theorem isolation_kept (hcourse : Course moves (new maxCookies maxCookiesPerDomain) h jar)
    (hsound : ∀ t ∈ h, SoundMove t.move) {now : Instant} {text : Octets} (hsent : jar.cookie target now = some text) :
    ∃ sent, text = join sent ∧ ∀ stored ∈ sent, ∃ t ∈ h, ∃ url values at' value cookie,
      t.move = .learn url values at' ∧ value ∈ values ∧ SetCookie.parse value = .ok cookie ∧
        stored.name = cookie.name ∧ stored.value = cookie.value ∧ Isolated url cookie at' target now := by
  rw [CookieJar.cookie] at hsent
  split_ifs at hsent
  cases hsent
  refine ⟨jar.kept target now, rfl, fun stored hstored => ?_⟩
  obtain ⟨hheld, hmatches⟩ := List.mem_filter.1 hstored
  obtain ⟨t, ht, url, values, at', value, cookie, hmove, hvalue, hparse, hresolve, hlasts⟩ := origin_of_course hcourse stored hheld
  have hisolated := isolated_of_matches hresolve hlasts (hsound t ht url values at' value cookie hmove hvalue hparse) hmatches
  obtain ⟨_, -, rfl⟩ := Option.map_eq_some_iff.1 hresolve
  exact ⟨t, ht, url, values, at', value, cookie, hmove, hvalue, hparse, rfl, rfl, hisolated⟩

theorem Sound.of_asked (domain : Octets) (hasked : StoredCookie.asked cookie.domain = some domain) (hlabels : TwoLabels domain)
    (hname : IpAddr.parses (host url) = false) : Sound url cookie := by
  intro _ domain' hasked' _
  rw [hasked] at hasked'
  cases hasked'
  exact ⟨hlabels, hname⟩

/-- A response that has a jar keep a cookie for a minute, for all under a name. -/
def shared : Move := .learn ⟨lit "https", lit "www.example.com", lit "/"⟩
  [lit "sid=1; Domain=.Example.com; Path=/a; Secure; Max-Age=60"] (.second 1)

theorem isolation_kept_shared : ∃ sent, lit "sid=1" = join sent ∧ ∀ stored ∈ sent,
    ∃ t ∈ (moves.played [shared] (new 3000 50)).1, ∃ url values at' value cookie,
      t.move = .learn url values at' ∧ value ∈ values ∧ SetCookie.parse value = .ok cookie ∧
        stored.name = cookie.name ∧ stored.value = cookie.value ∧
        Isolated url cookie at' ⟨lit "https", lit "Shop.example.com", lit "/a/b?c"⟩ (.second 60) := by
  have hcourse : Course moves (new 3000 50) (moves.played [shared] (new 3000 50)).1 (moves.played [shared] (new 3000 50)).2 :=
    .played fun _ _ => not_false
  refine isolation_kept hcourse (List.forall_mem_singleton.2 ?_) (by decide +kernel)
  intro url values now value cookie hmove hvalue hparse
  cases hmove
  obtain rfl := List.mem_singleton.1 hvalue
  cases hparse
  exact .of_asked (lit "example.com") (by decide +kernel) (by decide +kernel) (by decide +kernel)

/-- What a request to one host is sent with, once another set a cookie. -/
def sentTo (other host value : Octets) : Option Octets :=
  (moves.played [.learn ⟨lit "https", host, lit "/"⟩ [value] (.second 1)] (new 3000 50)).2.cookie
    ⟨lit "https", other, lit "/"⟩ (.second 1)

/-- A host of one label, an address and a host that ends in a dot have a jar keep cookies for all under them, or under
    the one label they are under. -/
theorem isolation_lost :
    sentTo (lit "other.localhost") (lit "localhost") (lit "sid=1; Domain=localhost") = some (lit "sid=1") ∧
    sentTo (lit "other.192.0.2.1") (lit "192.0.2.1") (lit "sid=1; Domain=192.0.2.1") = some (lit "sid=1") ∧
    sentTo (lit "other.com.") (lit "www.com.") (lit "sid=1; Domain=com.") = some (lit "sid=1") := by
  decide +kernel

end CookieJar

end Soyokaze
