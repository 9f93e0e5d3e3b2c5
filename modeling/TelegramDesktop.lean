import TelegramDesktop.SparseIdsSliceBuilderAgreement
import TelegramDesktop.PtsWaiterOrder
import TelegramDesktop.GroupCallOrder
import TelegramDesktop.GroupCallTables
import TelegramDesktop.StreamingDownloader
import TelegramDesktop.HistoriesRelease
import TelegramDesktop.HistoriesReadingOrder
import TelegramDesktop.DcOptionsUpdates
import TelegramDesktop.GuestAuthorizationImports
import TelegramDesktop.KeyCreationOwnership
import TelegramDesktop.LocalFilesSaving
import TelegramDesktop.DraftsSurvival
import TelegramDesktop.DcKeyCreatorTranscript
import TelegramDesktop.TlsSocketHello
import TelegramDesktop.ProxyData
import TelegramDesktop.DomainRuns
import TelegramDesktop.StreamingWaitingFills
import TelegramDesktop.UserPhotos
import TelegramDesktop.RepliesListSlices
import TelegramDesktop.RepliesListUnread
import TelegramDesktop.RepliesListRuns
import TelegramDesktop.DialogsListOrder
import TelegramDesktop.DialogsIndexedListMirror
import TelegramDesktop.HistoriesCallbacksRuns
import TelegramDesktop.WriteManager
import TelegramDesktop.PinnedList
import TelegramDesktop.DedicatedLoaderAssembly
import TelegramDesktop.StreamedFileDownloaderAssembly
import TelegramDesktop.ScheduledMessagesReload
import TelegramDesktop.AccountFileLocations
import TelegramDesktop.InstanceDependentsChains
import TelegramDesktop.StickerSetsReading
import TelegramDesktop.PqFactorizationSoundness
import TelegramDesktop.SessionPrivateChecksRuns
import TelegramDesktop.ReactionsPolling
import TelegramDesktop.MessageReactionsRuns
import TelegramDesktop.PassportEncryption
import TelegramDesktop.WallPaperSharing
import TelegramDesktop.ChatFiltersExceptions
import TelegramDesktop.ChatFolderListRows
import TelegramDesktop.DownloadManagerWatchingRuns
import TelegramDesktop.UploaderRuns
import TelegramDesktop.Waveform
import TelegramDesktop.CacheKeys
import TelegramDesktop.EmojiKeywordsRefresh
import TelegramDesktop.EmojiKeywordsCache
import TelegramDesktop.UnreadThings
import TelegramDesktop.DownloadQueue
import TelegramDesktop.SparseIdsListMerges
import TelegramDesktop.Groups
import TelegramDesktop.MessagesList
