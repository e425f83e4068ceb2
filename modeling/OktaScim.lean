import OktaScim.GroupPatchOrder
import OktaScim.FilteredLists
import OktaScim.GroupPatchFrame
import OktaScim.ConcurrentStore
import OktaScim.UsersLinearizable
import OktaScim.GroupsLinearizable
import OktaScim.FailedRequests
import OktaScim.MembershipRefinement
import OktaScim.FullReplacement
import OktaScim.PutPatchAgreement
import OktaScim.NameLookup
import OktaScim.Paging
import OktaScim.ReadWriteBack
import OktaScim.EventIngest
import OktaScim.PatchRetry
import OktaScim.HashBlindness
import OktaScim.LastWrites
import OktaScim.PatchComposition
import OktaScim.PatchTranslation
import OktaScim.PatchProvenance
import OktaScim.PatchPostconditions
import OktaScim.PatchForms
import OktaScim.PatchFold
import OktaScim.MemberBodies
import OktaScim.PrimaryEmail
import OktaScim.LastModified
import OktaScim.JwtGuard
import OktaScim.LogSecrecy
import OktaScim.EventSecrecy
import OktaScim.ProxyTargets
import OktaScim.EventWindows
import OktaScim.MemberPaths
import OktaScim.AdvertisedPaging
import OktaScim.Dashboard
import OktaScim.DirectorySessions
import OktaScim.ConcurrentApi
import OktaScim.ChangeStamps
import OktaScim.AnswerShapes
import OktaScim.PageMarkup
import OktaScim.LiveTable
import OktaScim.ProxyExchanges
import OktaScim.Offboarding
import OktaScim.LostUpdates
import OktaScim.WatchedTraffic
