import Quorum.Sdk.Waiting

/-!
# Reading the proposals page by page

A page of proposals takes many requests: one for the number of proposals and one for each of them
by its id. The chain goes on between any two of them. As ids are given out one after the other and
never taken back, the pages of a list screen fit together nevertheless: as long as the pages are
full, they show every proposal once, in order, and with the first page that is not full they show
all that there were when its count was read.
-/

namespace Quorum.Sdk

open Foundation Governor Client

/-! ## Pages -/

/-- How many proposals a page has by default. -/
def defaultPageSize : ℕ := 50

/-- A whole number as an option. -/
def JsNumber.ofNat (n : ℕ) : JsNumber := ⟨decimalUnits n, some n⟩

/-- `fetchProposalWindow` where every request may find the contract in another state: `counted` is
the one that tells the number of proposals, and `seen` the one that a proposal is read from. -/
def fetchWindowAcross (net : Network) (counted : Storage) (seen : ℕ → Storage)
    (offset : JsNumber) (limit : Option JsNumber) : Except JsString (List Proposal) :=
  match offset.natural with
  | none => .error (units "Invalid offset " ++ offset.text ++ units ": must be a non-negative integer")
  | some first =>
    match limit.map fun n => (n, n.natural) with
    | some (n, none) =>
      .error (units "Invalid limit " ++ n.text ++ units ": must be a non-negative integer")
    | some (_, some 0) => .ok []
    | window => do
      let total := toNumber (getProposalCount counted)
      if total ≤ first then .ok []
      else do
        let stop := match window with
          | some (_, some size) => min total (toNumber (first + size))
          | _ => total
        let ids ← pushIds maxArrayLength (toNumber (first + 1)) stop
        let proposals ← promiseAll (ids.map fun id => getProposal net (seen id) id)
        .ok (proposals.filterMap id)

/-- A page of proposals. -/
def getProposals (net : Network) (counted : Storage) (seen : ℕ → Storage)
    (options : Option GetProposalsOptions) : Except JsString (List Proposal) :=
  fetchWindowAcross net counted seen ((options.bind GetProposalsOptions.offset).getD .zero)
    (some ((options.bind GetProposalsOptions.limit).getD (.ofNat defaultPageSize)))

variable {net : Network} {s : Storage}

/-- Where nothing happens in between, this is the window of one state. -/
theorem fetchWindowAcross_same (offset : JsNumber) (limit : Option JsNumber) :
    fetchWindowAcross net s (fun _ => s) offset limit = fetchProposalWindow net s offset limit :=
  rfl

/-- Rounding keeps the order of a count and a number of at most 52 bits. -/
theorem min_toNumber (count : ℕ) {n : ℕ} (hn : n ≤ 2 ^ 52) :
    min (toNumber count) n = min count n := by
  rcases Nat.lt_or_ge count (2 ^ 53) with hlt | hge
  · rw [toNumber_of_le hlt]
  · have hle := le_toNumber hge
    rw [min_eq_right (by omega), min_eq_right (by omega)]

/-- The ids that a page asks for. -/
def pageIds (count limit index : ℕ) : List ℕ :=
  List.range' (index * limit + 1) (min count ((index + 1) * limit) - index * limit)

/-- A natural number is read as itself. -/
theorem natural_ofNat (n : ℕ) : (JsNumber.ofNat n).natural = some n := by
  simp [JsNumber.ofNat, JsNumber.natural]

/-- The page asks for the ids of its window that have been given out. -/
theorem getProposals_eq {counted : Storage} {seen : ℕ → Storage} {limit index : ℕ}
    (hpos : 0 < limit) (hlimit : limit ≤ maxArrayLength) (hsmall : (index + 1) * limit ≤ 2 ^ 52) :
    getProposals net counted seen (some ⟨some (.ofNat (index * limit)), some (.ofNat limit)⟩) =
      (promiseAll ((pageIds (getProposalCount counted) limit index).map
        fun id => getProposal net (seen id) id)).map
          fun proposals => proposals.filterMap fun q => q := by
  have hnext : (index + 1) * limit = index * limit + limit := Nat.succ_mul index limit
  have hroom : maxArrayLength + 2 ^ 52 + 1 < 2 ^ 53 := by decide
  have hfirst : index * limit ≤ 2 ^ 52 := by omega
  obtain ⟨size, rfl⟩ : ∃ size, limit = size + 1 := ⟨limit - 1, by omega⟩
  simp only [getProposals, fetchWindowAcross, Option.bind_some, Option.getD_some, natural_ofNat,
    Option.map_some]
  by_cases hempty : toNumber (getProposalCount counted) ≤ index * (size + 1)
  · have hcount : getProposalCount counted ≤ index * (size + 1) := by
      have hmin := min_toNumber (getProposalCount counted) (show index * (size + 1) + 1 ≤ 2 ^ 52 by omega)
      omega
    rw [if_pos hempty, pageIds, Nat.sub_eq_zero_of_le (by omega)]
    rfl
  · have hstop : min (toNumber (getProposalCount counted))
        (toNumber (index * (size + 1) + (size + 1))) =
          min (getProposalCount counted) ((index + 1) * (size + 1)) := by
      rw [toNumber_of_le (n := index * (size + 1) + (size + 1)) (by omega), ← hnext]
      exact min_toNumber _ hsmall
    have hlt := min_le_right (getProposalCount counted) ((index + 1) * (size + 1))
    rw [if_neg hempty, hstop, toNumber_of_le (by omega), pushIds_eq _ _ _ (by omega),
      if_pos (by omega), Nat.add_sub_add_right]
    simp only [bind, Except.bind, pageIds]
    cases promiseAll _ with
    | error message => rfl
    | ok proposals => rfl

/-! ## One page of a chain that goes on -/

/-- How many calls of the run the answers to the requests of a page take into account: that to the
number of proposals, and that to each of the proposals. -/
structure Sight where
  counted : ℕ
  seen : ℕ → ℕ

/-- The page of the given size that starts after `index` pages. -/
def Sight.page (net : Network) (calls : List Invocation) (limit index : ℕ) (sight : Sight) :
    Except JsString (List Proposal) :=
  getProposals net (chainAt calls sight.counted).governor
    (fun id => (chainAt calls (sight.seen id)).governor)
    (some ⟨some (.ofNat (index * limit)), some (.ofNat limit)⟩)

/-- How many proposals there are at a height. -/
def countAt (calls : List Invocation) (height : ℕ) : ℕ :=
  getProposalCount (chainAt calls height).governor

/-- The entry shows the proposal of an id as one of the sights has found it. -/
def ShownAcross (net : Network) (calls : List Invocation) (sights : List Sight) (id : ℕ)
    (entry : Proposal) : Prop :=
  ∃ sight ∈ sights, ∃ p, (chainAt calls (sight.seen id)).governor.proposal id = some p ∧
    Shows net.toLibrary p entry

variable {calls : List Invocation} {now limit index : ℕ} {sight : Sight}

/-- At every height the ids in use are those up to the counter. -/
theorem indexed_chainAt (hcalls : machine.Scheduled 0 now calls) (height : ℕ) :
    Indexed (chainAt calls height).governor := by
  obtain ⟨mid, -, -, hfirst, -, -⟩ := chainAt_later hcalls (le_refl height)
  exact Indexed.run hfirst

/-- What is stored at a height is stored at all later ones. -/
theorem stored_chainAt {height later id : ℕ} (hcalls : machine.Scheduled 0 now calls)
    (hle : height ≤ later) (hid : 1 ≤ id ∧ id ≤ countAt calls height) :
    ∃ p, (chainAt calls later).governor.proposal id = some p := by
  obtain ⟨mid, last, more, hfirst, hrest, hchain⟩ := chainAt_later hcalls hle
  obtain ⟨p, hp⟩ := Option.isSome_iff_exists.mp (((indexed_chainAt hcalls height).stored id).mpr hid)
  obtain ⟨p', hp', -⟩ := kept_run (wellFormed_run hfirst) hrest hp
  exact ⟨p', by rw [hchain]; exact hp'⟩

/-- The number of proposals never falls. -/
theorem countAt_mono {height later : ℕ} (hcalls : machine.Scheduled 0 now calls)
    (hle : height ≤ later) : countAt calls height ≤ countAt calls later := by
  rcases Nat.eq_zero_or_pos (countAt calls height) with hzero | hpos
  · rw [hzero]
    exact Nat.zero_le _
  · obtain ⟨p, hp⟩ := stored_chainAt hcalls hle ⟨hpos, le_rfl⟩
    exact (((indexed_chainAt hcalls later).stored _).mp (by rw [hp, Option.isSome_some])).2

/-- Where every proposal is stored, with a known status, when it is read, all of them are shown. -/
theorem resolves_across (net : Network) {seen : ℕ → Storage} {ids : List ℕ}
    (hids : ∀ id ∈ ids, ∃ p, (seen id).proposal id = some p ∧ Known p.status) :
    ∃ proposals, promiseAll (ids.map fun id => getProposal net (seen id) id) = .ok proposals ∧
      List.Forall₂ (fun id q => ∃ p, (seen id).proposal id = some p ∧ Shows net.toLibrary p q) ids
        (proposals.filterMap fun q => q) := by
  induction ids with
  | nil => exact ⟨[], rfl, .nil⟩
  | cons id ids ih =>
    obtain ⟨p, hp, hknown⟩ := hids id List.mem_cons_self
    obtain ⟨q, hget, hshows⟩ := getProposal_known net hp hknown
    obtain ⟨proposals, hall, hrest⟩ := ih fun id' hid' => hids id' (List.mem_cons_of_mem id hid')
    refine ⟨some q :: proposals, ?_, .cons ⟨p, hp, hshows⟩ hrest⟩
    rw [List.map_cons, promiseAll, hget, hall]
    rfl

/-- A page whose proposals have known statuses when they are read shows those it has asked for. -/
theorem page_shown (net : Network) (hcalls : machine.Scheduled 0 now calls) (hpos : 0 < limit)
    (hlimit : limit ≤ maxArrayLength) (hsmall : (index + 1) * limit ≤ 2 ^ 52)
    (hseen : ∀ id, sight.counted ≤ sight.seen id)
    (hknown : ∀ id ∈ pageIds (countAt calls sight.counted) limit index, ∀ p,
      (chainAt calls (sight.seen id)).governor.proposal id = some p → Known p.status) :
    ∃ entries, sight.page net calls limit index = .ok entries ∧
      List.Forall₂ (ShownAcross net calls [sight])
        (pageIds (countAt calls sight.counted) limit index) entries := by
  have hids : ∀ id ∈ pageIds (countAt calls sight.counted) limit index,
      ∃ p, (chainAt calls (sight.seen id)).governor.proposal id = some p ∧ Known p.status := by
    intro id hid
    have hrange := List.mem_range'_1.mp hid
    have hgiven : 1 ≤ id ∧ id ≤ countAt calls sight.counted := by omega
    obtain ⟨p, hp⟩ := stored_chainAt hcalls (hseen id) hgiven
    exact ⟨p, hp, hknown id hid p hp⟩
  obtain ⟨proposals, hall, hshown⟩ := resolves_across net hids
  refine ⟨_, ?_, hshown.imp fun id q hq => ⟨sight, List.mem_singleton_self sight, hq⟩⟩
  rw [countAt] at hall
  rw [Sight.page, getProposals_eq hpos hlimit hsmall, hall]
  rfl

/-! ## Page after page -/

/-- The pages of the given size from the one with number `index` on. -/
def readPages (net : Network) (calls : List Invocation) (limit : ℕ) :
    ℕ → List Sight → List (Except JsString (List Proposal))
  | _, [] => []
  | index, sight :: sights =>
    sight.page net calls limit index :: readPages net calls limit (index + 1) sights

/-- What some sights have shown, more sights have shown. -/
theorem ShownAcross.mono {sights sights' : List Sight} {id : ℕ} {entry : Proposal}
    (h : ShownAcross net calls sights id entry) (hsub : sights ⊆ sights') :
    ShownAcross net calls sights' id entry := by
  obtain ⟨sight, hsight, hp⟩ := h
  exact ⟨sight, hsub hsight, hp⟩

/-- A page has the ids that are left for it, up to its size. -/
theorem length_pageIds (count limit index : ℕ) :
    (pageIds count limit index).length = min count ((index + 1) * limit) - index * limit :=
  List.length_range'

/-- The pages from one on that is reached, up to one that is not full: the induction is on the
pages, and each full page reaches the next one. -/
theorem readPages_shown (net : Network) (hcalls : machine.Scheduled 0 now calls)
    (hpos : 0 < limit) (hlimit : limit ≤ maxArrayLength) {sights : List Sight} (index : ℕ)
    (hsmall : (index + sights.length) * limit ≤ 2 ^ 52)
    (hseen : ∀ sight ∈ sights, ∀ id, sight.counted ≤ sight.seen id)
    (hordered : sights.Pairwise fun first later => first.counted ≤ later.counted)
    (hknown : ∀ k sight, sights[k]? = some sight →
      ∀ id ∈ pageIds (countAt calls sight.counted) limit (index + k), ∀ p,
        (chainAt calls (sight.seen id)).governor.proposal id = some p → Known p.status) :
    ∃ pages : List (List Proposal), readPages net calls limit index sights = pages.map .ok ∧
      ((∀ first ∈ sights.head?, index * limit ≤ countAt calls first.counted) →
        (∀ entries ∈ pages.dropLast, entries.length = limit) →
        ∃ n, List.Forall₂ (ShownAcross net calls sights) (List.range' (index * limit + 1) n)
            pages.flatten ∧
          ∀ last ∈ sights.getLast?, ∀ entries ∈ pages.getLast?,
            index * limit + n ≤ countAt calls last.counted ∧
            (entries.length < limit → index * limit + n = countAt calls last.counted)) := by
  induction sights generalizing index with
  | nil => exact ⟨[], rfl, fun _ _ => ⟨0, .nil, fun last hlast => by contradiction⟩⟩
  | cons sight sights ih =>
    have hnext : (index + 1) * limit = index * limit + limit := Nat.succ_mul index limit
    have hfits : (index + 1) * limit ≤ (index + (sights.length + 1)) * limit :=
      Nat.mul_le_mul_right limit (by omega)
    rw [List.length_cons] at hsmall
    obtain ⟨entries, hentries, hshown⟩ := page_shown net hcalls hpos hlimit (hfits.trans hsmall)
      (hseen sight List.mem_cons_self) (hknown 0 sight rfl)
    have hlength := hshown.length_eq
    rw [length_pageIds] at hlength
    obtain ⟨hfirst, hrest⟩ := List.pairwise_cons.mp hordered
    obtain ⟨pages, hpages, hcover⟩ := ih (index + 1) (by rwa [Nat.add_assoc, Nat.add_comm 1])
      (fun later hlater => hseen later (List.mem_cons_of_mem sight hlater)) hrest
      (fun k later hlater => by
        rw [Nat.add_assoc, Nat.add_comm 1]
        exact hknown (k + 1) later hlater)
    refine ⟨entries :: pages, by rw [readPages, hentries, hpages, List.map_cons], ?_⟩
    intro hreached hfull
    have hstart : index * limit ≤ countAt calls sight.counted := hreached sight rfl
    rcases sights with _ | ⟨next, sights⟩
    · have hnone : pages = [] := by
        cases pages with
        | nil => rfl
        | cons page pages => contradiction
      subst hnone
      refine ⟨entries.length, ?_, ?_⟩
      · rw [List.flatten_cons, List.flatten_nil, List.append_nil, ← hlength]
        exact hshown
      · intro last hlast page hpage
        obtain rfl : sight = last := Option.some.inj hlast
        obtain rfl : entries = page := Option.some.inj hpage
        omega
    · obtain ⟨page, others, rfl⟩ : ∃ page others, pages = page :: others := by
        cases pages with
        | nil => contradiction
        | cons page others => exact ⟨page, others, rfl⟩
      have hwhole : entries.length = limit := hfull entries List.mem_cons_self
      have hon : ∀ first ∈ (next :: sights).head?,
          (index + 1) * limit ≤ countAt calls first.counted := by
        intro first hhead
        obtain rfl : next = first := Option.some.inj hhead
        have hmono := countAt_mono hcalls (hfirst next List.mem_cons_self)
        omega
      obtain ⟨n, hn, hlast⟩ := hcover hon fun entries' hmem =>
        hfull entries' (List.mem_cons_of_mem entries hmem)
      refine ⟨limit + n, ?_, ?_⟩
      · rw [← List.range'_append_1, List.flatten_cons]
        have hids : pageIds (countAt calls sight.counted) limit index =
            List.range' (index * limit + 1) limit := by
          rw [pageIds]
          congr 1
          omega
        rw [hids] at hshown
        refine List.rel_append (hshown.imp fun _ _ h => h.mono (by simp)) ?_
        rw [show index * limit + 1 + limit = (index + 1) * limit + 1 by omega]
        exact hn.imp fun _ _ h => h.mono (List.subset_cons_self _ _)
      · intro last hmem page' hpage'
        rw [List.getLast?_cons_cons] at hmem hpage'
        have hend := hlast last hmem page' hpage'
        omega

/-- A client reads page after page while the contracts go on, so that no count is read before the
one of the page before it and no proposal before the count of its page. If the proposals that it
reads have known statuses when they are read, every page resolves. As long as the pages before the
last one are full, all pages together show the proposals with the ids from 1 up to some number,
each once and in order, as they are stored when they are read; and if the last page is not full,
these are all the proposals that there are when its count is read. -/
theorem pages_complete (net : Network) (hcalls : machine.Scheduled 0 now calls)
    (hpos : 0 < limit) (hlimit : limit ≤ maxArrayLength) {sights : List Sight}
    (hsmall : sights.length * limit ≤ 2 ^ 52)
    (hseen : ∀ sight ∈ sights, ∀ id, sight.counted ≤ sight.seen id)
    (hordered : sights.Pairwise fun first later => first.counted ≤ later.counted)
    (hknown : ∀ k sight, sights[k]? = some sight →
      ∀ id ∈ pageIds (countAt calls sight.counted) limit k, ∀ p,
        (chainAt calls (sight.seen id)).governor.proposal id = some p → Known p.status) :
    ∃ pages : List (List Proposal), readPages net calls limit 0 sights = pages.map .ok ∧
      ((∀ entries ∈ pages.dropLast, entries.length = limit) →
        ∃ n, List.Forall₂ (ShownAcross net calls sights) (List.range' 1 n) pages.flatten ∧
          ∀ last ∈ sights.getLast?, ∀ entries ∈ pages.getLast?,
            n ≤ countAt calls last.counted ∧
            (entries.length < limit → n = countAt calls last.counted)) := by
  obtain ⟨pages, hpages, hcover⟩ := readPages_shown net hcalls hpos hlimit 0
    (by rwa [Nat.zero_add]) hseen hordered (by simpa only [Nat.zero_add] using hknown)
  refine ⟨pages, hpages, fun hfull => ?_⟩
  obtain ⟨n, hn, hlast⟩ := hcover (fun _ _ => by rw [Nat.zero_mul]; exact Nat.zero_le _) hfull
  rw [Nat.zero_mul, Nat.zero_add] at hn
  simp only [Nat.zero_mul, Nat.zero_add] at hlast
  exact ⟨n, hn, hlast⟩

/-- Three proposals are opened, one after the other. -/
def threeProposals : List Invocation :=
  launchCalls 3 ++ [.governor (.authorized 5) (.createProposal (.account 1) [84] [] []),
    .governor (.authorized 6) (.createProposal (.account 1) [85] [] []),
    .governor (.authorized 7) (.createProposal (.account 1) [86] [] [])]

/-- Pages of two proposals. The third proposal is opened while the first page is read. -/
def twoSights : List Sight := [⟨4, fun _ => 5⟩, ⟨5, fun _ => 5⟩]

/-- Three proposals are shown on two pages, the last one opened in between. -/
theorem pages_complete_three :
    ∃ pages : List (List Proposal),
      readPages plainNetwork threeProposals 2 0 twoSights = pages.map .ok ∧
      ((∀ entries ∈ pages.dropLast, entries.length = 2) →
        ∃ n, List.Forall₂ (ShownAcross plainNetwork threeProposals twoSights) (List.range' 1 n)
          pages.flatten) := by
  have hcalls : machine.Scheduled 0 7 threeProposals := by decide
  have hseen : ∀ sight ∈ twoSights, ∀ id, sight.counted ≤ sight.seen id := by
    intro sight hsight id
    simp only [twoSights, List.mem_cons, List.not_mem_nil, or_false] at hsight
    rcases hsight with rfl | rfl
    · exact Nat.le_succ 4
    · exact le_rfl
  have hopen : ∀ id p, (chainAt threeProposals 5).governor.proposal id = some p →
      Known p.status := by
    intro id p hp
    have hcount : getProposalCount (chainAt threeProposals 5).governor = 3 := by decide
    obtain ⟨hone, hle⟩ := ((indexed_chainAt hcalls 5).stored id).mp (by rw [hp, Option.isSome_some])
    have hactive : statusOf (chainAt threeProposals 5) id = some .active := by
      have hid : id = 1 ∨ id = 2 ∨ id = 3 := by omega
      rcases hid with rfl | rfl | rfl <;> decide
    rw [statusOf, hp, Option.map_some, Option.some.injEq] at hactive
    rw [hactive]
    decide
  have hknown : ∀ k sight, twoSights[k]? = some sight →
      ∀ id ∈ pageIds (countAt threeProposals sight.counted) 2 k, ∀ p,
        (chainAt threeProposals (sight.seen id)).governor.proposal id = some p →
          Known p.status := by
    intro k sight hk id _ p hp
    have hsight := List.mem_of_getElem? hk
    simp only [twoSights, List.mem_cons, List.not_mem_nil, or_false] at hsight
    rcases hsight with rfl | rfl
    · exact hopen id p hp
    · exact hopen id p hp
  obtain ⟨pages, hpages, hcover⟩ := pages_complete plainNetwork hcalls (show 0 < 2 by decide)
    (by decide) (by decide) hseen (by decide) hknown
  refine ⟨pages, hpages, fun hfull => ?_⟩
  obtain ⟨n, hn, -⟩ := hcover hfull
  exact ⟨n, hn⟩

end Quorum.Sdk
