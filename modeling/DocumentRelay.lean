import DocumentRelay.Lib.Run
import DocumentRelay.Lib.WorkingCopy
import DocumentRelay.Models.DocumentModel
import DocumentRelay.Persistence
import DocumentRelay.Keys
import DocumentRelay.Sharing
import DocumentRelay.Interleaving
import DocumentRelay.DocumentMap
import DocumentRelay.Views.CreateDocumentView
import DocumentRelay.Views.PDFRelay
import DocumentRelay.Views.DetailedDocumentView
import DocumentRelay.Views.DetailedLoadedDocumentModel
import DocumentRelay.FieldOrder
import DocumentRelay.Export
import DocumentRelay.Lib.TreeValues
import DocumentRelay.Firebase.CompoundWriteValues
import DocumentRelay.Firebase.WriteTree
import DocumentRelay.Firebase.Answers
import DocumentRelay.Firebase.SortedDictionary
