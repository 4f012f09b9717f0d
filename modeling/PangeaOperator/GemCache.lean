import PangeaOperator.Lib.Run
import PangeaOperator.Lib.Text

/-!
# The gem cache

`ruby/gem_cache.rs`. The cache is a map from directories to what git left there, and every
step of `ensure` that leaves the process may fail. A commit is looked up in the repository
at a url under a name: a branch or tag points at one for the time being, an object name for
good.
-/

namespace PangeaOperator

/-- A path by its components. -/
abbrev Path := List String

namespace Path

def components (s : String) : List String :=
  ((s.toList.splitOn '/').filter (fun p => p ≠ [] ∧ p ≠ ['.'])).map String.ofList

def join (base : Path) (s : String) : Path :=
  if s.toList.head? = some '/' then components s else base ++ components s

def display (p : Path) : String := "/" ++ String.intercalate "/" p

/-- Lexically below the base: nothing replaces the base and nothing climbs out of it. -/
def Below (base p : Path) : Prop := ∃ rest, p = base ++ rest ∧ rest ≠ [] ∧ ".." ∉ rest

end Path

inductive GemCacheError where
  | clone (message : String)
  | filesystem (message : String)
  | invalidName (name : String)
  deriving DecidableEq, Repr

structure GemEntry where
  gemPath : Path
  libPath : Path
  deriving DecidableEq, Repr

def validateNameComponent (s : String) : Except GemCacheError Unit :=
  if s.toList = [] ∨ s.toList.head? = some '.' ∨ '/' ∈ s.toList ∨ '\\' ∈ s.toList ∨
      Char.ofNat 0 ∈ s.toList ∨ s = "." ∨ s = ".." then
    .error (.invalidName s)
  else .ok ()

def shortRef (gitRef : String) : String := String.ofList (gitRef.toList.take 40)

def entryDir (base : Path) (name gitRef : String) : Except GemCacheError Path :=
  match validateNameComponent name with
  | .error e => .error e
  | .ok () =>
    match validateNameComponent gitRef with
    | .error e => .error e
    | .ok () => .ok (base.join (name ++ "-" ++ shortRef gitRef))

def isShaRef (r : String) : Bool :=
  7 ≤ r.utf8ByteSize && r.utf8ByteSize ≤ 40 &&
    r.toList.all (fun c => ('0' ≤ c && c ≤ '9') || ('a' ≤ c && c ≤ 'f'))

section Git

variable {κ : Type}

/-- Branches and tags of the repositories at one moment, by url and name. -/
abbrev Moment (κ : Type) := String → String → Option κ

/-- A directory of the cache; the commit is the one its working tree is at, if it is whole. -/
structure GemDir (κ : Type) where
  hasGit : Bool
  origin : String
  commit : Option κ
  deriving DecidableEq, Repr

abbrev GemDirs (κ : Type) := Path → Option (GemDir κ)

def GemDirs.put (c : GemDirs κ) (dir : Path) (d : Option (GemDir κ)) : GemDirs κ :=
  fun p => if p = dir then d else c p

/-- What a removal meets: it may stop half-way, with or without the `.git` directory. -/
inductive Removal where
  | gone
  | stops (leavesGit : Bool)
  deriving DecidableEq, Repr

def GemDirs.removeDirAll (c : GemDirs κ) (dir : Path) : Removal → GemDirs κ
  | .gone => c.put dir none
  | .stops leavesGit => c.put dir ((c dir).map (fun d => ⟨d.hasGit && leavesGit, d.origin, none⟩))

/-- What a `git clone` meets: no process, a failure that may leave a directory behind with or
without its `.git`, or the repositories at some moment. -/
inductive CloneOutcome (κ : Type) where
  | spawnFails
  | fails (leaves : Option Bool)
  | reaches (remote : Moment κ)

inductive CheckoutOutcome where
  | spawnFails
  | fails
  | runs
  deriving DecidableEq, Repr

/-- What the steps of one call meet, in the order of the source. The messages are what a step says
when it fails. -/
structure GitRun (κ : Type) where
  scrubbed : Bool
  fetch : Option (Moment κ)
  reset : Bool
  refreshRemoval : Removal
  staleRemoval : Option String
  createBase : Option String
  clone : CloneOutcome κ
  cloneMessage : String
  cloneRemoval : Removal
  fullClone : CloneOutcome κ
  fullCloneMessage : String
  checkout : CheckoutOutcome
  checkoutMessage : String
  /-- `git checkout` takes a name that is no revision for a path, and moves nothing. -/
  pathspec : Bool
  /-- `git` takes the ref for an option (`-f`): a fetch brings the default branch, and a checkout
  moves nothing. -/
  option : Bool

structure GemCall (κ : Type) where
  name : String
  gitUrl : String
  gitRef : String
  git : GitRun κ

/-- The commits that object names stand for, in the repository at a url. -/
abbrev Objects (κ : Type) := String → String → Option κ

/-- A name in a repository: a branch or tag of that moment, else an object name. -/
def resolve (objects : Objects κ) (remote : Moment κ) (url name : String) : Option κ :=
  (remote url name).or (objects url name)

inductive CloneResult where
  | spawnFailed
  | failed
  | cloned
  deriving DecidableEq, Repr

/-- `git clone` into a directory; `tree` is the commit checked out at the end, `none` when the
clone refuses. -/
def gitClone (c : GemDirs κ) (dir : Path) (url : String) (tree : Moment κ → Option (Option κ)) :
    CloneOutcome κ → CloneResult × GemDirs κ
  | .spawnFails => (.spawnFailed, c)
  | .fails leaves =>
    match c dir with
    | some _ => (.failed, c)
    | none => (.failed, c.put dir (leaves.map (fun git => ⟨git, url, none⟩)))
  | .reaches remote =>
    match c dir, tree remote with
    | none, some commit => (.cloned, c.put dir (some ⟨true, url, commit⟩))
    | _, _ => (.failed, c)

/-- `git clone --depth 1 --branch`: the name of a branch or tag. -/
def branchTree (call : GemCall κ) (remote : Moment κ) : Option (Option κ) :=
  (remote call.gitUrl call.gitRef).map some

/-- `git clone`: the default branch. -/
def defaultTree (call : GemCall κ) (remote : Moment κ) : Option (Option κ) :=
  some (remote call.gitUrl "HEAD")

/-- `git checkout` in the full clone that was made of the repositories at that moment. -/
def gitCheckout (objects : Objects κ) (call : GemCall κ) (d : GemDir κ) (remote : Moment κ) :
    Option (GemDir κ) :=
  if call.git.option then some d
  else
    match resolve objects remote call.gitUrl call.gitRef with
    | some commit => some { d with commit := some commit }
    | none => if call.git.pathspec then some d else none

def entryOf (dir : Path) : GemEntry := ⟨dir, dir.join "lib"⟩

def checkoutRef (objects : Objects κ) (call : GemCall κ) (dir : Path) (c : GemDirs κ) :
    Except GemCacheError GemEntry × GemDirs κ :=
  let failed := .clone s!"checkout {call.gitRef} failed: {call.git.checkoutMessage}"
  match call.git.checkout, call.git.fullClone, c dir with
  | .spawnFails, _, _ => (.error (.clone s!"spawn git checkout: {call.git.checkoutMessage}"), c)
  | .runs, .reaches remote, some d =>
    match gitCheckout objects call d remote with
    | some d' => (.ok (entryOf dir), c.put dir (some d'))
    | none => (.error failed, c)
  | _, _, _ => (.error failed, c)

/-- The retry without `--branch`. -/
def cloneAndCheckout (objects : Objects κ) (call : GemCall κ) (dir : Path) (c : GemDirs κ) :
    Except GemCacheError GemEntry × GemDirs κ :=
  match gitClone c dir call.gitUrl (defaultTree call) call.git.fullClone with
  | (.spawnFailed, c) =>
    (.error (.clone s!"spawn git clone (full): {call.git.fullCloneMessage}"), c)
  | (.failed, c) => (.error (.clone s!"full clone failed: {call.git.fullCloneMessage}"), c)
  | (.cloned, c) => checkoutRef objects call dir c

/-- `ensure` from the cache miss on. -/
def cloneGem (objects : Objects κ) (base : Path) (call : GemCall κ) (dir : Path) (c : GemDirs κ) :
    Except GemCacheError GemEntry × GemDirs κ :=
  match call.git.createBase with
  | some message => (.error (.filesystem s!"create base_dir {base.display}: {message}"), c)
  | none =>
    match gitClone c dir call.gitUrl (branchTree call) call.git.clone with
    | (.spawnFailed, c) => (.error (.clone s!"spawn git clone: {call.git.cloneMessage}"), c)
    | (.failed, c) =>
      cloneAndCheckout objects call dir (c.removeDirAll dir call.git.cloneRemoval)
    | (.cloned, c) => (.ok (entryOf dir), c)

def scrubPersistedCredential (call : GemCall κ) (d : GemDir κ) : GemDir κ :=
  if call.git.scrubbed then { d with origin := call.gitUrl } else d

/-- Fetch and reset; its error is only logged. A reset that fails leaves no whole tree. -/
def refreshMutableRef (objects : Objects κ) (call : GemCall κ) (d : GemDir κ) : Bool × GemDir κ :=
  match call.git.fetch with
  | none => (false, d)
  | some remote =>
    let name := if call.git.option then "HEAD" else call.gitRef
    match resolve objects remote d.origin name with
    | none => (false, d)
    | some commit =>
      if call.git.reset then (true, { d with commit := some commit })
      else (false, { d with commit := none })

def ensure (objects : Objects κ) (base : Path) (c : GemDirs κ) (call : GemCall κ) :
    Except GemCacheError GemEntry × GemDirs κ :=
  match entryDir base call.name call.gitRef with
  | .error e => (.error e, c)
  | .ok dir =>
    match c dir with
    | none => cloneGem objects base call dir c
    | some d =>
      if d.hasGit then
        let d := scrubPersistedCredential call d
        if isShaRef call.gitRef then (.ok (entryOf dir), c.put dir (some d))
        else
          match refreshMutableRef objects call d with
          | (true, d) => (.ok (entryOf dir), c.put dir (some d))
          | (false, d) =>
            cloneGem objects base call dir
              ((c.put dir (some d)).removeDirAll dir call.git.refreshRemoval)
      else
        match call.git.staleRemoval with
        | some message => (.error (.filesystem s!"remove stale {dir.display}: {message}"), c)
        | none => cloneGem objects base call dir (c.put dir none)

/-- The cache with the calls made on it so far. -/
structure CacheState (κ : Type) where
  dirs : GemDirs κ
  past : List (GemCall κ)

namespace CacheState

def start : CacheState κ := ⟨fun _ => none, []⟩

def step (objects : Objects κ) (base : Path) (st : CacheState κ) (call : GemCall κ) :
    CacheState κ :=
  ⟨(ensure objects base st.dirs call).2, call :: st.past⟩

end CacheState

@[simp] theorem put_self (c : GemDirs κ) (dir : Path) (d : Option (GemDir κ)) :
    c.put dir d dir = d := if_pos rfl

@[simp] theorem put_other (c : GemDirs κ) {dir p : Path} (d : Option (GemDir κ)) (h : p ≠ dir) :
    c.put dir d p = c p := if_neg h

theorem removeDirAll_other (c : GemDirs κ) {dir p : Path} (r : Removal) (h : p ≠ dir) :
    c.removeDirAll dir r p = c p := by
  cases r <;> exact put_other _ _ h

/-- Without a `.git` before the removal there is none after it. -/
theorem removeDirAll_self {c : GemDirs κ} {dir : Path} {r : Removal} {d : GemDir κ}
    (h : c.removeDirAll dir r dir = some d) : ∃ d₀, c dir = some d₀ ∧ (d.hasGit → d₀.hasGit) := by
  cases r with
  | gone => simp [GemDirs.removeDirAll] at h
  | stops leavesGit =>
    simp only [GemDirs.removeDirAll, put_self, Option.map_eq_some_iff] at h
    obtain ⟨d₀, hd₀, rfl⟩ := h
    exact ⟨d₀, hd₀, fun hgit => (Bool.and_eq_true_iff.mp hgit).1⟩

theorem gitClone_other (c : GemDirs κ) {dir p : Path} (url : String)
    (tree : Moment κ → Option (Option κ)) (o : CloneOutcome κ) (h : p ≠ dir) :
    (gitClone c dir url tree o).2 p = c p := by
  unfold gitClone
  split
  · rfl
  · split
    · rfl
    · exact put_other _ _ h
  · split
    · exact put_other _ _ h
    · rfl

/-- A clone that goes through met the repositories at a moment. -/
theorem gitClone_cloned {c c' : GemDirs κ} {dir : Path} {url : String}
    {tree : Moment κ → Option (Option κ)} {o : CloneOutcome κ}
    (h : gitClone c dir url tree o = (.cloned, c')) :
    ∃ remote commit, o = .reaches remote ∧ tree remote = some commit ∧
      c' = c.put dir (some ⟨true, url, commit⟩) := by
  unfold gitClone at h
  split at h
  · cases h
  · split at h <;> cases h
  · next remote =>
    split at h
    · next commit _ htree =>
      cases h
      exact ⟨remote, commit, rfl, htree, rfl⟩
    · cases h

/-- What a clone that fails leaves is what was there, or what the failure left of the clone. -/
theorem gitClone_left {c c' : GemDirs κ} {dir : Path} {url : String}
    {tree : Moment κ → Option (Option κ)} {o : CloneOutcome κ} {r : CloneResult} {d : GemDir κ}
    (h : gitClone c dir url tree o = (r, c')) (hr : r ≠ .cloned) (hd : c' dir = some d)
    (hgit : d.hasGit = true) : c dir = some d ∨ o = .fails (some true) := by
  unfold gitClone at h
  split at h
  · cases h
    exact .inl hd
  · next leaves =>
    split at h
    · cases h
      exact .inl hd
    · cases h
      rw [put_self, Option.map_eq_some_iff] at hd
      obtain ⟨git, rfl, rfl⟩ := hd
      replace hgit : git = true := hgit
      exact .inr (by rw [hgit])
  · split at h
    · cases h
      exact absurd rfl hr
    · cases h
      exact .inl hd

variable {objects : Objects κ} {base : Path} {call : GemCall κ}

theorem checkoutRef_other (dir : Path) (c : GemDirs κ) {p : Path} (h : p ≠ dir) :
    (checkoutRef objects call dir c).2 p = c p := by
  unfold checkoutRef
  dsimp only
  split
  · rfl
  · split
    · exact put_other _ _ h
    · rfl
  · rfl

theorem cloneAndCheckout_other (dir : Path) (c : GemDirs κ) {p : Path} (h : p ≠ dir) :
    (cloneAndCheckout objects call dir c).2 p = c p := by
  have hclone := gitClone_other c call.gitUrl (defaultTree call) call.git.fullClone h
  unfold cloneAndCheckout
  split
  · next heq =>
    rw [heq] at hclone
    exact hclone
  · next heq =>
    rw [heq] at hclone
    exact hclone
  · next heq =>
    rw [heq] at hclone
    exact (checkoutRef_other dir _ h).trans hclone

theorem cloneGem_other (dir : Path) (c : GemDirs κ) {p : Path} (h : p ≠ dir) :
    (cloneGem objects base call dir c).2 p = c p := by
  have hclone := gitClone_other c call.gitUrl (branchTree call) call.git.clone h
  unfold cloneGem
  split
  · rfl
  · split
    · next heq =>
      rw [heq] at hclone
      exact hclone
    · next heq =>
      rw [heq] at hclone
      exact (cloneAndCheckout_other dir _ h).trans ((removeDirAll_other _ _ h).trans hclone)
    · next heq =>
      rw [heq] at hclone
      exact hclone

/-- The repositories as they were at some moment of the call. -/
def Met (call : GemCall κ) (remote : Moment κ) : Prop :=
  call.git.fetch = some remote ∨ call.git.clone = .reaches remote ∨
    call.git.fullClone = .reaches remote

/-- The ref is no option of `git`, and where it is no revision of the repository it is not
accepted as one of its paths. -/
structure PlainRef (objects : Objects κ) (call : GemCall κ) : Prop where
  option : call.git.option = false
  pathspec : call.git.pathspec = true → ∀ remote, call.git.fullClone = .reaches remote →
    resolve objects remote call.gitUrl call.gitRef ≠ none

/-- No step of the call fails and leaves a `.git` behind. -/
def Tidy (objects : Objects κ) (call : GemCall κ) : Prop :=
  call.git.clone ≠ .fails (some true) ∧ call.git.fullClone ≠ .fails (some true) ∧
    ∀ remote, call.git.fullClone = .reaches remote →
      call.git.checkout = .runs ∧ resolve objects remote call.gitUrl call.gitRef ≠ none

/-- The commit is what the ref was at a moment of the call. -/
def At (objects : Objects κ) (call : GemCall κ) (commit : Option κ) : Prop :=
  ∃ remote c, Met call remote ∧ resolve objects remote call.gitUrl call.gitRef = some c ∧
    commit = some c

theorem at_of_branch {remote : Moment κ} {commit : Option κ}
    (hclone : call.git.clone = .reaches remote)
    (htree : branchTree call remote = some commit) : At objects call commit := by
  obtain ⟨c, hc, rfl⟩ := Option.map_eq_some_iff.mp htree
  exact ⟨remote, c, .inr (.inl hclone), by rw [resolve, hc]; rfl, rfl⟩

theorem checkoutRef_ok (hplain : PlainRef objects call) {dir : Path} {c : GemDirs κ}
    {entry : GemEntry} (h : (checkoutRef objects call dir c).1 = .ok entry) :
    entry = entryOf dir ∧
      ∃ d, (checkoutRef objects call dir c).2 dir = some d ∧ At objects call d.commit := by
  unfold checkoutRef at h ⊢
  dsimp only at h ⊢
  split at h
  · cases h
  · next remote d _ hfull _ =>
    simp only [gitCheckout, hplain.option, Bool.false_eq_true, if_false] at h ⊢
    cases hres : resolve objects remote call.gitUrl call.gitRef with
    | some commit =>
      rw [hres] at h
      cases h
      exact ⟨rfl, _, put_self _ _ _, remote, commit, .inr (.inr hfull), hres, rfl⟩
    | none =>
      rw [hres] at h
      have hnot : call.git.pathspec = false := by
        by_contra hp
        exact hplain.pathspec (by simpa using hp) remote hfull hres
      rw [hnot] at h
      cases h
  · cases h

theorem cloneGem_ok (hplain : PlainRef objects call) {dir : Path} {c : GemDirs κ}
    {entry : GemEntry} (h : (cloneGem objects base call dir c).1 = .ok entry) :
    entry = entryOf dir ∧
      ∃ d, (cloneGem objects base call dir c).2 dir = some d ∧ At objects call d.commit := by
  unfold cloneGem at h ⊢
  split at h
  · cases h
  · split at h
    · cases h
    · unfold cloneAndCheckout at h ⊢
      split at h
      · cases h
      · cases h
      · exact checkoutRef_ok hplain h
    · next c' hclone =>
      obtain ⟨remote, commit, hreach, htree, rfl⟩ := gitClone_cloned hclone
      cases h
      exact ⟨rfl, _, put_self _ _ _, at_of_branch hreach htree⟩

theorem checkoutRef_git (hplain : PlainRef objects call) (htidy : Tidy objects call) {dir : Path}
    {c : GemDirs κ} {remote : Moment κ}
    (hfull : call.git.fullClone = .reaches remote) {d₀ d : GemDir κ} (hd₀ : c dir = some d₀)
    (hd : (checkoutRef objects call dir c).2 dir = some d) : At objects call d.commit := by
  obtain ⟨hruns, hres⟩ := htidy.2.2 remote hfull
  obtain ⟨commit, hcommit⟩ := Option.ne_none_iff_exists'.mp hres
  simp only [checkoutRef, hruns, hfull, hd₀, gitCheckout, hplain.option, Bool.false_eq_true,
    if_false, hcommit, put_self, Option.some.injEq] at hd
  subst hd
  exact ⟨remote, commit, .inr (.inr hfull), hcommit, rfl⟩

/-- What a tidy call makes of an absent directory has a `.git` only with the commit asked for. -/
theorem cloneGem_git (hplain : PlainRef objects call) (htidy : Tidy objects call) {dir : Path}
    {c : GemDirs κ} (hnone : c dir = none) {d : GemDir κ}
    (hd : (cloneGem objects base call dir c).2 dir = some d)
    (hgit : d.hasGit = true) : At objects call d.commit := by
  -- nothing with a `.git` is there after a clone that failed
  have hleft {c' : GemDirs κ} {r : CloneResult} {d' : GemDir κ}
      (hclone : gitClone c dir call.gitUrl (branchTree call) call.git.clone = (r, c'))
      (hr : r ≠ .cloned) (hd' : c' dir = some d') : d'.hasGit ≠ true := by
    intro hgit'
    rcases gitClone_left hclone hr hd' hgit' with hbefore | hfails
    · rw [hnone] at hbefore
      cases hbefore
    · exact htidy.1 hfails
  unfold cloneGem at hd
  split at hd
  · exact absurd (hnone.symm.trans hd) nofun
  · split at hd
    · next hclone => exact absurd hgit (hleft hclone nofun hd)
    · next c' hclone =>
      unfold cloneAndCheckout at hd
      have hremoved {d' : GemDir κ}
          (hd' : c'.removeDirAll dir call.git.cloneRemoval dir = some d') :
          d'.hasGit ≠ true := by
        obtain ⟨d₀, hd₀, hkept⟩ := removeDirAll_self hd'
        exact fun hgit' => hleft hclone nofun hd₀ (hkept hgit')
      have hfull {c'' : GemDirs κ} {r : CloneResult} {d' : GemDir κ}
          (hclone' : gitClone (c'.removeDirAll dir call.git.cloneRemoval) dir call.gitUrl
            (defaultTree call) call.git.fullClone = (r, c''))
          (hr : r ≠ .cloned) (hd' : c'' dir = some d') : d'.hasGit ≠ true := by
        intro hgit'
        rcases gitClone_left hclone' hr hd' hgit' with hbefore | hfails
        · exact hremoved hbefore hgit'
        · exact htidy.2.1 hfails
      split at hd
      · next hclone' => exact absurd hgit (hfull hclone' nofun hd)
      · next hclone' => exact absurd hgit (hfull hclone' nofun hd)
      · next c'' hclone' =>
        obtain ⟨remote, commit, hreach, -, rfl⟩ := gitClone_cloned hclone'
        exact checkoutRef_git hplain htidy hreach (put_self _ _ _) hd
    · next c' hclone =>
      obtain ⟨remote, commit, hreach, htree, rfl⟩ := gitClone_cloned hclone
      have hmade := Option.some.inj ((put_self c dir _).symm.trans hd)
      rw [← hmade]
      exact at_of_branch hreach htree

/-- The commit that was asked for: for an object name the one it stands for, for any other ref the
one it pointed at during the call. -/
def IsAsked (objects : Objects κ) (call : GemCall κ) (commit : Option κ) : Prop :=
  if isShaRef call.gitRef then ∃ c, objects call.gitUrl call.gitRef = some c ∧ commit = some c
  else At objects call commit

/-- No branch or tag has the ref for its name, unless it points at that very commit. -/
def NoSuchBranch (objects : Objects κ) (call : GemCall κ) : Prop :=
  ∀ remote c, Met call remote → remote call.gitUrl call.gitRef = some c →
    objects call.gitUrl call.gitRef = some c

/-- Where the name of a directory and the presence of its `.git` tell enough: an object name that
is no branch finds only what calls for the same url and ref have left, none of them half-way; any
other ref finds a directory whose origin is set to the url. -/
def Orderly (objects : Objects κ) (base : Path) (st : CacheState κ) (call : GemCall κ) : Prop :=
  PlainRef objects call ∧
  (isShaRef call.gitRef = true → NoSuchBranch objects call ∧
    ∀ f ∈ st.past, ∀ dir, entryDir base f.name f.gitRef = .ok dir →
      entryDir base call.name call.gitRef = .ok dir →
      f.gitUrl = call.gitUrl ∧ f.gitRef = call.gitRef ∧ Tidy objects f) ∧
  (isShaRef call.gitRef = false → ∀ dir d, entryDir base call.name call.gitRef = .ok dir →
    st.dirs dir = some d → d.hasGit = true → call.git.scrubbed = true ∨ d.origin = call.gitUrl)

/-- A directory with a `.git` was made by a call for it. -/
def MadeByCalls (objects : Objects κ) (base : Path) (st : CacheState κ) : Prop :=
  ∀ dir d, st.dirs dir = some d → d.hasGit = true →
    ∃ f ∈ st.past, entryDir base f.name f.gitRef = .ok dir ∧
      (isShaRef f.gitRef = true → Tidy objects f → IsAsked objects f d.commit)

/-- What a call that succeeds returns is at the commit that was asked for. -/
def ServesAsked (objects : Objects κ) (base : Path) (st : CacheState κ) (call : GemCall κ) : Prop :=
  ∀ entry, (ensure objects base st.dirs call).1 = .ok entry →
    ∃ d, (ensure objects base st.dirs call).2 entry.gemPath = some d ∧
      IsAsked objects call d.commit

theorem isAsked_of_at (hbranch : isShaRef call.gitRef = true → NoSuchBranch objects call)
    {commit : Option κ} (h : At objects call commit) : IsAsked objects call commit := by
  unfold IsAsked
  split
  · next hsha =>
    obtain ⟨remote, c, hmet, hres, rfl⟩ := h
    refine ⟨c, ?_, rfl⟩
    rw [resolve, Option.or_eq_some_iff] at hres
    rcases hres with hnamed | ⟨-, hobject⟩
    · exact hbranch hsha remote c hmet hnamed
    · exact hobject
  · exact h

theorem isAsked_congr {f : GemCall κ} (hsha : isShaRef call.gitRef = true)
    (hurl : f.gitUrl = call.gitUrl) (href : f.gitRef = call.gitRef) {commit : Option κ}
    (h : IsAsked objects f commit) : IsAsked objects call commit := by
  rw [IsAsked, href, if_pos hsha, hurl] at h
  rw [IsAsked, if_pos hsha]
  exact h

theorem scrub_commit (d : GemDir κ) : (scrubPersistedCredential call d).commit = d.commit := by
  unfold scrubPersistedCredential
  split <;> rfl

theorem refresh_ok (hplain : PlainRef objects call) {d d' : GemDir κ}
    (horigin : call.git.scrubbed = true ∨ d.origin = call.gitUrl)
    (h : refreshMutableRef objects call (scrubPersistedCredential call d) = (true, d')) :
    At objects call d'.commit := by
  have hurl : (scrubPersistedCredential call d).origin = call.gitUrl := by
    unfold scrubPersistedCredential
    split
    · rfl
    · next hnot => exact horigin.resolve_left hnot
  simp only [refreshMutableRef, hplain.option, Bool.false_eq_true, if_false, hurl] at h
  split at h
  · cases h
  · next remote hfetch =>
    split at h
    · cases h
    · next commit hres =>
      split at h
      · cases h
        exact ⟨remote, commit, .inl hfetch, hres, rfl⟩
      · cases h

theorem ensure_other {c : GemDirs κ} {dir p : Path}
    (hdir : entryDir base call.name call.gitRef = .ok dir) (h : p ≠ dir) :
    (ensure objects base c call).2 p = c p := by
  unfold ensure
  rw [hdir]
  dsimp only
  split
  · exact cloneGem_other dir c h
  · split
    · split
      · exact put_other _ _ h
      · split
        · exact put_other _ _ h
        · rw [cloneGem_other dir _ h, removeDirAll_other _ _ h, put_other _ _ h]
    · split
      · rfl
      · rw [cloneGem_other dir _ h, put_other _ _ h]

variable {st : CacheState κ}

/-- A hit on an object name finds the commit it stands for. -/
theorem hit_isAsked (hinv : MadeByCalls objects base st) (ho : Orderly objects base st call)
    (hsha : isShaRef call.gitRef = true) {dir : Path}
    (hdir : entryDir base call.name call.gitRef = .ok dir) {d : GemDir κ}
    (hd : st.dirs dir = some d) (hgit : d.hasGit = true) : IsAsked objects call d.commit := by
  obtain ⟨f, hf, hfdir, hasked⟩ := hinv dir d hd hgit
  obtain ⟨hurl, href, htidy⟩ := (ho.2.1 hsha).2 f hf dir hfdir hdir
  exact isAsked_congr hsha hurl href (hasked (by rw [href, hsha]) htidy)

theorem servesAsked_of_orderly (hinv : MadeByCalls objects base st)
    (ho : Orderly objects base st call) : ServesAsked objects base st call := by
  intro entry hok
  have hbranch : isShaRef call.gitRef = true → NoSuchBranch objects call := fun h => (ho.2.1 h).1
  have hcloned {dir : Path} {c : GemDirs κ} (h : (cloneGem objects base call dir c).1 = .ok entry) :
      ∃ d, (cloneGem objects base call dir c).2 entry.gemPath = some d ∧
        IsAsked objects call d.commit := by
    obtain ⟨rfl, d, hd, hat⟩ := cloneGem_ok ho.1 h
    exact ⟨d, hd, isAsked_of_at hbranch hat⟩
  unfold ensure at hok ⊢
  cases hdir : entryDir base call.name call.gitRef with
  | error e =>
    rw [hdir] at hok
    cases hok
  | ok dir =>
    rw [hdir] at hok
    dsimp only at hok ⊢
    cases hd : st.dirs dir with
    | none =>
      rw [hd] at hok
      exact hcloned hok
    | some d =>
      rw [hd] at hok
      dsimp only at hok ⊢
      split at hok
      · next hgit =>
        rw [if_pos hgit]
        split at hok
        · next hsha =>
          rw [if_pos hsha]
          cases hok
          refine ⟨_, put_self _ _ _, ?_⟩
          rw [scrub_commit]
          exact hit_isAsked hinv ho hsha hdir hd hgit
        · next hsha =>
          rw [if_neg hsha]
          have hmutable : isShaRef call.gitRef = false := by simpa using hsha
          split at hok
          · next d' hrefresh =>
            cases hok
            have horigin := ho.2.2 hmutable dir d hdir hd hgit
            exact ⟨d', put_self _ _ _, isAsked_of_at hbranch (refresh_ok ho.1 horigin hrefresh)⟩
          · exact hcloned hok
      · next hgit =>
        rw [if_neg hgit]
        split at hok
        · cases hok
        · exact hcloned hok

theorem made_isAsked (hinv : MadeByCalls objects base st) (ho : Orderly objects base st call)
    (hsha : isShaRef call.gitRef = true) (htidy : Tidy objects call) {dir : Path}
    (hdir : entryDir base call.name call.gitRef = .ok dir) {d : GemDir κ}
    (hd : (ensure objects base st.dirs call).2 dir = some d) (hgit : d.hasGit = true) :
    IsAsked objects call d.commit := by
  have hbranch : isShaRef call.gitRef = true → NoSuchBranch objects call := fun h => (ho.2.1 h).1
  unfold ensure at hd
  rw [hdir] at hd
  dsimp only at hd
  split at hd
  · next hnone => exact isAsked_of_at hbranch (cloneGem_git ho.1 htidy hnone hd hgit)
  · next d₀ hd₀ =>
    split at hd
    · next hgit₀ =>
      have hkept := Option.some.inj ((put_self st.dirs dir _).symm.trans hd)
      rw [← hkept, scrub_commit]
      exact hit_isAsked hinv ho hsha hdir hd₀ hgit₀
    · next hgit₀ =>
      split at hd
      · have hsame := Option.some.inj (hd₀.symm.trans hd)
        exact absurd (hsame ▸ hgit) hgit₀
      · exact isAsked_of_at hbranch (cloneGem_git ho.1 htidy (put_self _ _ _) hd hgit)

theorem madeByCalls_start : MadeByCalls objects base CacheState.start := by
  intro dir d hd
  cases hd

theorem madeByCalls_step (st : CacheState κ) (call : GemCall κ) (ho : Orderly objects base st call)
    (hinv : MadeByCalls objects base st) :
    MadeByCalls objects base (st.step objects base call) := by
  intro p d hd hgit
  replace hd : (ensure objects base st.dirs call).2 p = some d := hd
  have hold (h : (ensure objects base st.dirs call).2 p = st.dirs p) :
      ∃ f ∈ (st.step objects base call).past, entryDir base f.name f.gitRef = .ok p ∧
        (isShaRef f.gitRef = true → Tidy objects f → IsAsked objects f d.commit) := by
    obtain ⟨f, hf, hmade⟩ := hinv p d (h.symm.trans hd) hgit
    exact ⟨f, List.mem_cons_of_mem _ hf, hmade⟩
  cases hdir : entryDir base call.name call.gitRef with
  | error e =>
    apply hold
    rw [ensure, hdir]
  | ok dir =>
    by_cases hp : p = dir
    · subst hp
      exact ⟨call, List.mem_cons_self, hdir,
        fun hsha htidy => made_isAsked hinv ho hsha htidy hdir hd hgit⟩
    · exact hold (ensure_other hdir hp)

end Git

theorem validateNameComponent_ok {s : String} (h : validateNameComponent s = .ok ()) :
    s.toList ≠ [] ∧ s.toList.head? ≠ some '.' ∧ '/' ∉ s.toList := by
  unfold validateNameComponent at h
  split at h
  · cases h
  · next hbad =>
    simp only [not_or] at hbad
    exact ⟨hbad.1, hbad.2.1, hbad.2.2.1⟩

/-- A name without a slash that does not start with a dot is one component, and stays below. -/
theorem below_join (base : Path) {s : String} (hnil : s.toList ≠ [])
    (hdot : s.toList.head? ≠ some '.') (hslash : '/' ∉ s.toList) :
    Path.Below base (base.join s) := by
  have hsplit : s.toList.splitOn '/' = [s.toList] := by
    have h : (['/'].intercalate [s.toList]).splitOn '/' = [s.toList] :=
      List.splitOn_intercalate '/' (by simpa using hslash) (by simp)
    simpa using h
  have hhead : s.toList.head? ≠ some '/' := fun h => hslash (List.mem_of_head? h)
  have hname : s.toList ≠ ['.'] := by
    intro h
    rw [h] at hdot
    exact hdot rfl
  have hparent : s ≠ ".." := by
    intro h
    rw [h] at hdot
    exact hdot (by decide)
  have hcomponents : Path.components s = [s] := by
    simp [Path.components, hsplit, hnil, hname]
  refine ⟨[s], by rw [Path.join, if_neg hhead, hcomponents], by simp, ?_⟩
  simpa using hparent.symm

theorem entryDir_below {base dir : Path} {name gitRef : String}
    (h : entryDir base name gitRef = .ok dir) : Path.Below base dir := by
  unfold entryDir at h
  split at h
  · cases h
  · next hname =>
    split at h
    · cases h
    · next href =>
      cases h
      obtain ⟨hnil, hdot, hslash⟩ := validateNameComponent_ok hname
      obtain ⟨c, cs, hcs⟩ := List.exists_cons_of_ne_nil hnil
      have hchars : (name ++ "-" ++ shortRef gitRef).toList =
          name.toList ++ '-' :: gitRef.toList.take 40 := by simp [shortRef]
      rw [hcs, List.head?_cons] at hdot
      apply below_join
      · simp [hchars]
      · simpa [hchars, hcs] using hdot
      · rw [hchars, List.mem_append, List.mem_cons, not_or, not_or]
        refine ⟨hslash, by decide, fun hmem => ?_⟩
        exact (validateNameComponent_ok href).2.2 (List.mem_of_mem_take hmem)

/-- Where every call finds the cache in order, what `ensure` returns is what was asked for, and no
name or ref leads out of the root. -/
theorem cache_serves_what_was_asked {κ : Type} (objects : Objects κ) (base : Path)
    {es : List (GemCall κ)}
    (h : Along (CacheState.step objects base) CacheState.start es (Orderly objects base)) :
    Along (CacheState.step objects base) CacheState.start es (ServesAsked objects base) ∧
    ∀ name gitRef dir, entryDir base name gitRef = .ok dir → Path.Below base dir := by
  refine ⟨fun pre e post he => ?_, fun _ _ _ => entryDir_below⟩
  rw [he, along_append_iff, along_cons_iff] at h
  have hinv : MadeByCalls objects base (run (CacheState.step objects base) CacheState.start pre) :=
    run_invariant_of_along madeByCalls_step madeByCalls_start h.1
  exact servesAsked_of_orderly hinv h.2.1

section Gems

def gemUrl : String := "https://github.com/pleme-io/pangea-architectures"

def gemSha : String := "7fb2fcc"

/-- Two repositories that use one abbreviation for different commits. -/
def gemObjects : Objects Nat :=
  fun url name => if name = gemSha then (if url = gemUrl then some 7 else some 9) else none

def gemRemote : Moment Nat := fun _ name => if name = "HEAD" ∨ name = "main" then some 1 else none

/-- Every step goes through. -/
def goodGit : GitRun Nat :=
  ⟨true, some gemRemote, true, .gone, none, none, .reaches gemRemote, "", .gone,
    .reaches gemRemote, "", .runs, "", false, false⟩

def gemCall (url gitRef : String) (git : GitRun Nat) : GemCall Nat :=
  ⟨"pangea-architectures", url, gitRef, git⟩

def gemRoot : Path := ["var", "pangea", "gems"]

def gemDir : Path := gemRoot ++ ["pangea-architectures-7fb2fcc"]

/-- The call for the commit finds the cache in order where only calls for the same url have used
its directory. -/
theorem orderly_sha {st : CacheState Nat}
    (hpast : ∀ f ∈ st.past, f = gemCall gemUrl gemSha goodGit ∨
      entryDir gemRoot f.name f.gitRef ≠ .ok gemDir) :
    Orderly gemObjects gemRoot st (gemCall gemUrl gemSha goodGit) := by
  have hmet {remote : Moment Nat} (h : Met (gemCall gemUrl gemSha goodGit) remote) :
      remote = gemRemote := by
    rcases h with h | h | h <;> cases h <;> rfl
  have hnone : gemRemote gemUrl gemSha = none := by decide +kernel
  have hdir : entryDir gemRoot "pangea-architectures" gemSha = .ok gemDir := by decide +kernel
  have hsha : isShaRef gemSha = true := by decide +kernel
  refine ⟨⟨rfl, fun hp => Bool.noConfusion hp⟩, fun _ => ⟨?_, ?_⟩, fun h => ?_⟩
  · intro remote c h hc
    rw [hmet h] at hc
    exact absurd (hnone.symm.trans hc) nofun
  · intro f hf dir hfdir hcall
    cases hdir.symm.trans hcall
    rcases hpast f hf with rfl | hother
    · refine ⟨rfl, rfl, nofun, nofun, fun remote hfull => ⟨rfl, ?_⟩⟩
      rw [hmet (.inr (.inr hfull))]
      decide +kernel
    · exact absurd hfdir hother
  · exact Bool.noConfusion (hsha.symm.trans h)

/-- A hit after a clone that went through, with a call for the branch in between. -/
theorem cloned_gem_is_served :
    ServesAsked gemObjects gemRoot
      (run (CacheState.step gemObjects gemRoot) CacheState.start
        [gemCall gemUrl gemSha goodGit, gemCall gemUrl "main" goodGit])
      (gemCall gemUrl gemSha goodGit) := by
  have hmain : entryDir gemRoot "pangea-architectures" "main" ≠ .ok gemDir := by decide +kernel
  have horderly : Along (CacheState.step gemObjects gemRoot) CacheState.start
      [gemCall gemUrl gemSha goodGit, gemCall gemUrl "main" goodGit,
        gemCall gemUrl gemSha goodGit] (Orderly gemObjects gemRoot) := by
    rw [along_cons_iff, along_cons_iff, along_cons_iff]
    refine ⟨orderly_sha (fun f hf => absurd hf List.not_mem_nil), ?_, orderly_sha ?_,
      along_nil _ _ _⟩
    · refine ⟨⟨rfl, fun hp => Bool.noConfusion hp⟩, fun h => ?_, fun _ _ _ _ _ _ => .inl rfl⟩
      exact absurd h (by decide +kernel)
    · intro f hf
      rcases List.mem_cons.mp hf with rfl | hf
      · exact .inr hmain
      · exact .inl (List.mem_singleton.mp hf)
  exact (cache_serves_what_was_asked gemObjects gemRoot horderly).1 _ _ [] rfl

theorem not_served {st : CacheState Nat} {d : GemDir Nat}
    (hok : (ensure gemObjects gemRoot st.dirs (gemCall gemUrl gemSha goodGit)).1 =
      .ok (entryOf gemDir))
    (hd : (ensure gemObjects gemRoot st.dirs (gemCall gemUrl gemSha goodGit)).2 gemDir = some d)
    (hne : d.commit ≠ some 7) :
    ¬ServesAsked gemObjects gemRoot st (gemCall gemUrl gemSha goodGit) := by
  intro h
  obtain ⟨d', hd', hasked⟩ := h _ hok
  cases Option.some.inj (hd.symm.trans hd')
  rw [IsAsked, if_pos (by decide +kernel)] at hasked
  obtain ⟨c, hc, hcommit⟩ := hasked
  have hseven : gemObjects gemUrl gemSha = some 7 := by decide +kernel
  rw [hcommit, ← hc] at hne
  exact hne hseven

/-- The checkout of the commit fails after the full clone, and the next call takes what it left for
the gem; so does a call for the same name and ref in another repository. -/
theorem half_made_gem_is_served :
    (¬ServesAsked gemObjects gemRoot
      (run (CacheState.step gemObjects gemRoot) CacheState.start
        [gemCall gemUrl gemSha { goodGit with checkout := .fails }])
      (gemCall gemUrl gemSha goodGit)) ∧
    ¬ServesAsked gemObjects gemRoot
      (run (CacheState.step gemObjects gemRoot) CacheState.start
        [gemCall "https://github.com/org/repo" gemSha goodGit])
      (gemCall gemUrl gemSha goodGit) := by
  constructor
  · exact not_served (d := ⟨true, gemUrl, some 1⟩) (by decide +kernel) (by decide +kernel) nofun
  · exact not_served (d := ⟨true, gemUrl, some 9⟩) (by decide +kernel) (by decide +kernel)
      (by decide)

end Gems

end PangeaOperator
