import FractionsOS.Images.BitmapDrawing
import FractionsOS.Interrupt.ContextFrames
import FractionsOS.Interrupt.ContextOwnership
import FractionsOS.Interrupt.Fairness
import FractionsOS.Interrupt.IsrTransparency
import FractionsOS.Interrupt.PicNesting
import FractionsOS.Interrupt.TaskStacks
import FractionsOS.Storage.AtaAnswers
import FractionsOS.Storage.AtaFlush
import FractionsOS.Storage.AtaStore
import FractionsOS.Storage.AtaTaskFile
import FractionsOS.Storage.Fat32Clusters
import FractionsOS.Storage.Fat32Sector
import FractionsOS.Storage.NvmeCompletion
import FractionsOS.Storage.NvmeSubmission
import FractionsOS.Video.PrintkFormat
import FractionsOS.Video.VbeDisplay
import FractionsOS.Video.VbeScroll
import FractionsOS.Video.VbeTextScroll
import FractionsOS.Video.VgaLayout
import FractionsOS.Video.PrintkText
import FractionsOS.Video.VbeFonts
import FractionsOS.Video.VbeGlyphs
import FractionsOS.Video.VgaCells
import FractionsOS.Video.VgaReset
import FractionsOS.Storage.NvmeEncoding
import FractionsOS.Images.HeaderRoundTrip
import FractionsOS.Library.CFiles
import FractionsOS.Images.IncludedHeaders
import FractionsOS.Images.EncoderRuns
import FractionsOS.Interrupt.PicRemap
import FractionsOS.Interrupt.PicEoi
import FractionsOS.Interrupt.PicVectors
import FractionsOS.Interrupt.TaskTurns
import FractionsOS.Video.VbeComposition
import FractionsOS.Video.VbeFrames
import FractionsOS.Video.VbeScrollRuns
import FractionsOS.Video.VbeWindows
import FractionsOS.Library.PackedRecords
import FractionsOS.Storage.AtaPieces
import FractionsOS.Storage.Fat32Format
import FractionsOS.Storage.AtaSteady
import FractionsOS.Images.EncoderRebuild
import FractionsOS.Images.IncludeGuards
import FractionsOS.Video.PrintkConsole
import FractionsOS.Storage.AtaIsolation
import FractionsOS.Storage.NvmeStale
import FractionsOS.Storage.AtaPauses
import FractionsOS.Library.DoubleBuffer
import FractionsOS.Video.VbeCanvas
import FractionsOS.Video.VbeHidden
import FractionsOS.Library.PlacedRecords
import FractionsOS.Storage.Fat32Store
import FractionsOS.Interrupt.IsrNesting
import FractionsOS.Storage.Fat32Volumes
